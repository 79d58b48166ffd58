import Mathlib.Data.Char
import Obstack.Lib.Buffer
import Obstack.Lib.Records
import Obstack.Maps

/-! iter_task: the records that getdents64 leaves in a buffer of 1024 bytes, decoded in place
and batch after batch. What follows a batch in the buffer is whatever was there before. -/
namespace Obstack
open CText Records

/-! The strings that common::ltrim, rtrim and trim return. -/

def ltrim (s : Str) : Str := s.dropWhile isSpace
def rtrim (s : Str) : Str := s.rdropWhile isSpace
def trim (s : Str) : Str := rtrim (ltrim s)

/-- /proc/pid/task, opened: the bytes of each getdents64 call, none for an error, the comm
file of each thread, and what tname holds before it is read. -/
structure TaskDir where
  getdents : Nat → Option Str
  comm : Int → Option Str
  tname : Int → Str

/-- fgets leaves the buffer alone when it meets the end of the file at once. -/
def getThName (comm : Option Str) (buf : Str) (len : Nat) : Str :=
  match comm with
  | none => buf
  | some [] => buf
  | some text => poke buf 0 ((fgets (len - 1) text).1 ++ [nul])

/-- strtol, cut to an int. -/
def atoi (s : Str) : Int :=
  match readNumber 10 s with
  | none => 0
  | some (negative, n, _) => ((toLong negative n).setWidth 32).toInt

/-! linux_dirent64: d_ino and d_off of 8 bytes each, d_reclen of 2, d_type of 1, d_name. -/

def byteAt (mem : Str) (i : Nat) : Nat := (mem[i]?.map Char.toNat).getD 0
def dReclen (dirent : Str) : Nat := byteAt dirent 16 + 256 * byteAt dirent 17
def dName (dirent : Str) : Str := cString (dirent.drop 19)

section IterTask

variable (dir : TaskDir) (pid : Int) (threadOnly : Bool)

def direntCalls (dirent : Str) : List (Int × Str) :=
  if dName dirent ≠ ['.'] ∧ dName dirent ≠ ['.', '.'] then
    let tid := atoi (dName dirent)
    if tid ≠ pid ∧ threadOnly = true then []
    else [(tid, trim (cString (getThName (dir.comm tid) (dir.tname tid) 32)))]
  else []

/-- The loop over one batch. A record of length 0 would keep it at its offset. -/
def direntLoop (buf : Str) (nread : Nat) :
    Nat → Nat → List (Int × Str) → Option (List (Int × Str))
  | 0, offset, calls => if offset < nread then none else some calls
  | fuel + 1, offset, calls =>
    if offset < nread then
      let dirent := buf.drop offset
      direntLoop buf nread fuel (offset + dReclen dirent)
        (calls ++ direntCalls dir pid threadOnly dirent)
    else some calls

/-- The do-while loop over the system calls, from the i-th on. -/
def getdentsLoop : Nat → Nat → Str → List (Int × Str) → Option (List (Int × Str))
  | 0, _, _, _ => none
  | fuel + 1, i, buf, calls =>
    match dir.getdents i with
    | none => some calls
    | some batch =>
      if batch.length = 0 then some calls
      else
        let buf := poke buf 0 batch
        (direntLoop dir pid threadOnly buf batch.length batch.length 0 calls).bind
          (getdentsLoop fuel (i + 1) buf)

end IterTask

/-- All calls of cb in order; none is a loop that needs more steps than it is given. -/
def iterTask (dir : Option TaskDir) (pid : Int) (threadOnly : Bool) (fuel : Nat) (buf : Str) :
    Option (List (Int × Str)) :=
  match dir with
  | none => some []
  | some dir => getdentsLoop dir pid threadOnly fuel 0 buf []

/-! ## The kernel's records -/

/-- An entry of the directory as a record: a name that is a dot, two dots or a decimal int,
its terminator and any padding. -/
structure Entry where
  head : Str
  type : Char
  name : Str
  pad : Str
  headLength : head.length = 16
  written : name = ['.'] ∨ name = ['.', '.'] ∨
    (name ≠ [] ∧ (∀ c ∈ name, isDigitOf 10 c = true) ∧ valueOf 10 name < 2 ^ 31)

namespace Entry

variable (e : Entry)

def reclen : Nat := 20 + e.name.length + e.pad.length

def record : Str :=
  e.head ++ Char.ofNat (e.reclen % 256) :: Char.ofNat (e.reclen / 256) :: e.type ::
    (e.name ++ nul :: e.pad)

def isThread : Bool := e.name ≠ ['.'] && e.name ≠ ['.', '.']

def tid : Int := valueOf 10 e.name

theorem record_length : e.record.length = e.reclen := by
  simp only [record, reclen, List.length_append, List.length_cons, e.headLength]
  omega

theorem name_plain : nul ∉ e.name := by
  rcases e.written with dot | dots | ⟨_, digits, _⟩
  · rw [dot]
    decide
  · rw [dots]
    decide
  · intro member
    exact absurd (digits nul member) (by decide)

theorem char_toNat {n : Nat} (small : n < 256) : (Char.ofNat n).toNat = n := by
  have valid : n.isValidChar := Or.inl (by omega)
  rw [Char.ofNat, dif_pos valid]
  rfl

theorem byteAt_length (rest : Str) :
    byteAt (e.record ++ rest) 16 = (Char.ofNat (e.reclen % 256)).toNat ∧
      byteAt (e.record ++ rest) 17 = (Char.ofNat (e.reclen / 256)).toNat := by
  have head := e.headLength
  constructor
  · rw [byteAt, record, List.append_assoc, List.getElem?_append_right (by omega), head]
    rfl
  · rw [byteAt, record, List.append_assoc, List.getElem?_append_right (by omega), head]
    rfl

theorem dReclen_record (small : e.reclen < 65536) (rest : Str) :
    dReclen (e.record ++ rest) = e.reclen := by
  obtain ⟨low, high⟩ := e.byteAt_length rest
  rw [dReclen, low, high, char_toNat (Nat.mod_lt _ (by decide)),
    char_toNat (Nat.div_lt_of_lt_mul small)]
  exact Nat.mod_add_div _ _

theorem dName_record (rest : Str) : dName (e.record ++ rest) = e.name := by
  have head : e.head.length ≤ 19 := by rw [e.headLength]; decide
  rw [dName, record, List.append_assoc, List.drop_append, List.drop_eq_nil_of_le head, e.headLength]
  change cString ((e.name ++ nul :: e.pad) ++ rest) = e.name
  rw [List.append_assoc]
  exact cString_append _ e.name_plain

theorem framed (small : e.reclen < 65536) : Framed dReclen e.record where
  nonempty := by
    intro empty
    have length := e.record_length
    rw [empty] at length
    simp [reclen] at length
    omega
  sized rest := (e.dReclen_record small rest).trans e.record_length.symm

theorem atoi_name (thread : e.isThread = true) : atoi e.name = e.tid := by
  rcases e.written with dot | dots | ⟨nonempty, digits, small⟩
  · simp [isThread, dot] at thread
  · simp [isThread, dots] at thread
  · have ended : Stops 10 [] := by simp [Stops]
    have read := readNumber_digits digits nonempty ended
    rw [List.append_nil] at read
    rw [atoi, read, tid]
    simp only [toLong, Bool.false_eq_true, if_false]
    have word : min (valueOf 10 e.name) (2 ^ 63 - 1) = valueOf 10 e.name := by omega
    have kept : (BitVec.ofNat 32 (valueOf 10 e.name)).toNat = valueOf 10 e.name := by
      rw [BitVec.toNat_ofNat]
      omega
    rw [word, BitVec.setWidth_ofNat_of_le (by decide), BitVec.toInt_eq_toNat_of_lt (by omega), kept]

end Entry

/-- What one getdents64 call returns: whole records, at least one, that fit the buffer. -/
structure Batch where
  entries : List Entry
  nonempty : entries ≠ []
  fits : (entries.flatMap Entry.record).length ≤ 1024

namespace Batch

variable (b : Batch)

def bytes : Str := b.entries.flatMap Entry.record

theorem entry_small {e : Entry} (member : e ∈ b.entries) : e.reclen < 65536 := by
  have part : e.record.length ≤ (b.entries.flatMap Entry.record).length := by
    obtain ⟨before, after, split⟩ := List.append_of_mem member
    rw [split, List.flatMap_append, List.flatMap_cons, List.length_append, List.length_append]
    omega
  have fits := b.fits
  rw [← e.record_length]
  omega

theorem framed : ∀ r ∈ b.entries.map Entry.record, Framed dReclen r := by
  intro r member
  obtain ⟨e, here, rfl⟩ := List.mem_map.mp member
  exact e.framed (b.entry_small here)

theorem bytes_eq : b.bytes = (b.entries.map Entry.record).flatten := List.flatMap_def

theorem bytes_nonempty : b.bytes.length ≠ 0 := by
  have some_ : 0 < b.entries.length := List.length_pos_iff.mpr b.nonempty
  have enough := length_le_bytes b.framed
  rw [← bytes_eq, List.length_map] at enough
  omega

end Batch

/-! ## The loops over the records -/

section Listing

variable (dir : TaskDir) (pid : Int) (threadOnly : Bool)

theorem direntLoop_walk (buf : Str) (nread fuel offset : Nat) (calls : List (Int × Str)) :
    direntLoop dir pid threadOnly buf nread fuel offset calls =
      (walk dReclen buf nread fuel offset).map (fun views =>
        calls ++ views.flatMap (direntCalls dir pid threadOnly)) := by
  induction fuel generalizing offset calls with
  | zero =>
    rw [direntLoop, walk]
    by_cases inside : offset < nread
    · simp [inside]
    · simp [inside]
  | succ fuel ih =>
    rw [direntLoop, walk]
    by_cases inside : offset < nread
    · simp only [inside, if_true, ih, Option.map_map]
      congr 1
      funext views
      simp [List.append_assoc]
    · simp [inside]

def Entry.calls (e : Entry) : List (Int × Str) :=
  if e.isThread && (!threadOnly || e.tid = pid) then
    [(e.tid, trim (cString (getThName (dir.comm e.tid) (dir.tname e.tid) 32)))]
  else []

theorem direntCalls_record (e : Entry) (rest : Str) :
    direntCalls dir pid threadOnly (e.record ++ rest) = e.calls dir pid threadOnly := by
  rw [direntCalls, Entry.calls, e.dName_record]
  cases thread : e.isThread with
  | false =>
    have dots : ¬ (e.name ≠ ['.'] ∧ e.name ≠ ['.', '.']) := by simpa [Entry.isThread] using thread
    rw [if_neg dots]
    rfl
  | true =>
    have named : e.name ≠ ['.'] ∧ e.name ≠ ['.', '.'] := by simpa [Entry.isThread] using thread
    rw [if_pos named, e.atoi_name thread]
    cases threadOnly with
    | false => simp
    | true => by_cases self : e.tid = pid <;> simp [self]

theorem direntLoop_batch (b : Batch) (stale : Str) (calls : List (Int × Str)) :
    direntLoop dir pid threadOnly (b.bytes ++ stale) b.bytes.length b.bytes.length 0 calls =
      some (calls ++ b.entries.flatMap (Entry.calls dir pid threadOnly)) := by
  have enough := length_le_bytes b.framed
  obtain ⟨views, walked, seen⟩ := walk_records b.framed [] stale b.bytes.length (by
    rw [b.bytes_eq]
    exact enough)
  rw [← b.bytes_eq, List.nil_append, List.length_nil, Nat.zero_add] at walked
  rw [direntLoop_walk, walked, Option.map_some]
  have alone (e : Entry) : direntCalls dir pid threadOnly e.record = e.calls dir pid threadOnly := by
    have plain := direntCalls_record dir pid threadOnly e []
    rwa [List.append_nil] at plain
  have decoded : views.map (direntCalls dir pid threadOnly) =
      (b.entries.map Entry.record).map (direntCalls dir pid threadOnly) := by
    apply map_views seen
    intro r member rest
    obtain ⟨e, _, rfl⟩ := List.mem_map.mp member
    rw [direntCalls_record, alone]
  rw [List.flatMap_def, decoded, List.map_map, ← List.flatMap_def]
  simp only [Function.comp_def, alone]

end Listing

/-- /proc/pid/task listed batch by batch; from then on getdents64 returns 0. -/
def listedDir (batches : List Batch) (comm : Int → Option Str) (tname : Int → Str) : TaskDir where
  getdents i := some ((batches[i]?.map Batch.bytes).getD [])
  comm := comm
  tname := tname

section Listed

variable (comm : Int → Option Str) (tname : Int → Str) (pid : Int) (threadOnly : Bool)

theorem getdentsLoop_listed (before after : List Batch) (k : Nat) (buf : Str)
    (calls : List (Int × Str)) :
    getdentsLoop (listedDir (before ++ after) comm tname) pid threadOnly (after.length + 1 + k)
        before.length buf calls =
      some (calls ++ (after.flatMap Batch.entries).flatMap
        (Entry.calls (listedDir (before ++ after) comm tname) pid threadOnly)) := by
  induction after generalizing before buf calls with
  | nil =>
    have done : (listedDir (before ++ []) comm tname).getdents before.length = some [] := by
      simp [listedDir]
    rw [List.length_nil, Nat.zero_add, Nat.add_comm, getdentsLoop, done]
    simp
  | cons b after ih =>
    have next : (listedDir (before ++ b :: after) comm tname).getdents before.length =
        some b.bytes := by
      simp [listedDir]
    have rest := ih (before ++ [b])
    rw [List.append_assoc, List.length_append, List.singleton_append] at rest
    have steps : (b :: after).length + 1 + k = after.length + 1 + k + 1 := by
      rw [List.length_cons]
      omega
    have overwritten : poke buf 0 b.bytes = b.bytes ++ buf.drop b.bytes.length := by simp [poke]
    rw [steps, getdentsLoop, next]
    simp only [b.bytes_nonempty, if_false]
    rw [overwritten, direntLoop_batch, Option.bind_some]
    refine (rest (b.bytes ++ buf.drop b.bytes.length) _).trans ?_
    rw [List.flatMap_cons, List.flatMap_append, List.append_assoc]

def Entry.thread (e : Entry) : Int × Str :=
  (e.tid, trim (cString (getThName (comm e.tid) (tname e.tid) 32)))

/-- The threads that the listing of a process leads to. -/
def listedThreads (batches : List Batch) : List (Int × Str) :=
  ((batches.flatMap Batch.entries).filter
    (fun e => e.isThread && (!threadOnly || e.tid = pid))).map (Entry.thread comm tname)

theorem entries_calls (dir : TaskDir) (entries : List Entry) :
    entries.flatMap (Entry.calls dir pid threadOnly) =
      (entries.filter (fun e => e.isThread && (!threadOnly || e.tid = pid))).map
        (Entry.thread dir.comm dir.tname) := by
  induction entries with
  | nil => rfl
  | cons e entries ih =>
    rw [List.flatMap_cons, ih, Entry.calls, List.filter_cons]
    cases e.isThread && (!threadOnly || decide (e.tid = pid)) with
    | true => rfl
    | false => rfl

theorem iterTask_threads (batches : List Batch) (k : Nat) (buf : Str) :
    iterTask (some (listedDir batches comm tname)) pid threadOnly (batches.length + 1 + k) buf =
      some (listedThreads comm tname pid threadOnly batches) := by
  have run := getdentsLoop_listed comm tname pid threadOnly [] batches k buf []
  rw [List.nil_append, List.nil_append, entries_calls] at run
  exact run

/-- Whatever the cuts between the batches, whatever the buffer held: cb is called once for each
thread of the listing, in order. -/
theorem iterTask_listing (batches : List Batch) (k : Nat) (buf : Str) :
    iterTask (some (listedDir batches comm tname)) pid threadOnly (batches.length + 1 + k) buf =
      some (((batches.flatMap Batch.entries).filter
        (fun e => e.isThread && (!threadOnly || e.tid = pid))).map (Entry.thread comm tname)) :=
  iterTask_threads comm tname pid threadOnly batches k buf

end Listed

end Obstack
