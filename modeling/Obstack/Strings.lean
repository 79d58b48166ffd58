import Obstack.Threads

/-! The string functions of util.h where they meet memory and size_t: the two scans of trim,
with every index they touch, and the comparison in endwith. -/
namespace Obstack
open CText

/-! ## trim -/

/-- A string in memory, between the bytes below and above it. -/
structure InMemory where
  below : Str
  text : Str
  above : Str
  plain : nul ∉ text

namespace InMemory

variable (m : InMemory)

def mem : Str := m.below ++ (m.text ++ nul :: m.above)
def buf : Nat := m.below.length

theorem mem_text {j : Nat} (inside : j < m.text.length) : m.mem[m.buf + j]? = m.text[j]? := by
  rw [mem, buf, List.getElem?_append_right (by omega), Nat.add_sub_cancel_left,
    List.getElem?_append_left inside]

theorem mem_terminator : m.mem[m.buf + m.text.length]? = some nul := by
  rw [mem, buf, List.getElem?_append_right (by omega), Nat.add_sub_cancel_left,
    List.getElem?_append_right (Nat.le_refl _), Nat.sub_self]
  rfl

end InMemory

/-- What a scan ends with, and the indices it reads. -/
structure Scan where
  at_ : Nat
  touched : List Nat

namespace Pointer

/-- while(isspace(*s)) s++, over the memory from s on; none behind its end. -/
def ltrim : Str → Nat → Option Scan
  | [], _ => none
  | c :: mem, s =>
    if isSpace c then (ltrim mem (s + 1)).map (fun r => { r with touched := s :: r.touched })
    else some { at_ := s, touched := [s] }

/-- The length of the string at the start of mem; one more character is read. -/
def strlen : Str → Option Nat
  | [] => none
  | c :: mem => if c = nul then some 0 else (strlen mem).map (· + 1)

/-- while(isspace(*--back)), downwards through mem; none below its start. -/
def scanBack (mem : Str) : Nat → Option Scan
  | 0 => none
  | back + 1 =>
    match mem[back]? with
    | none => none
    | some c =>
      if isSpace c then (scanBack mem back).map (fun r => { r with touched := back :: r.touched })
      else some { at_ := back, touched := [back] }

/-- Memory, returned pointer, and the indices read or written. -/
structure Trimmed where
  mem : Str
  s : Nat
  touched : List Nat

def rtrim (mem : Str) (s : Nat) : Option Trimmed := do
  let len ← strlen (mem.drop s)
  let back ← scanBack mem (s + len)
  return { mem := poke mem (back.at_ + 1) [nul], s
           touched := List.range' s (len + 1) ++ back.touched ++ [back.at_ + 1] }

def trim (mem : Str) (s : Nat) : Option Trimmed := do
  let left ← ltrim (mem.drop s) s
  let right ← rtrim mem left.at_
  return { right with touched := left.touched ++ right.touched }

end Pointer

/-- trim stays on the string and its terminator, and returns it without the white space around. -/
def TrimRight (m : InMemory) : Prop :=
  ∃ r, Pointer.trim m.mem m.buf = some r ∧
    (∀ i ∈ r.touched, m.buf ≤ i ∧ i ≤ m.buf + m.text.length) ∧
    cString (r.mem.drop r.s) = trim m.text

namespace Pointer

theorem ltrim_spaces {pre : Str} (spaces : ∀ c ∈ pre, isSpace c = true) {c : Char}
    (solid : isSpace c = false) (rest : Str) (s : Nat) : ltrim (pre ++ c :: rest) s =
      some { at_ := s + pre.length, touched := List.range' s (pre.length + 1) } := by
  induction pre generalizing s with
  | nil =>
    rw [List.nil_append, ltrim, solid]
    rfl
  | cons p pre ih =>
    rw [List.forall_mem_cons] at spaces
    rw [List.cons_append, ltrim, spaces.1, if_pos rfl, ih spaces.2, List.length_cons]
    simp only [Option.map_some, List.range'_succ, Option.some.injEq, Scan.mk.injEq, and_true]
    omega

theorem strlen_plain {text : Str} (plain : nul ∉ text) (above : Str) :
    strlen (text ++ nul :: above) = some text.length := by
  induction text with
  | nil => rfl
  | cons c text ih =>
    rw [List.mem_cons, not_or] at plain
    rw [List.cons_append, strlen, if_neg (Ne.symm plain.1), ih plain.2]
    rfl

/-- The scan passes white space and stops at the first other character. -/
theorem scanBack_stops {mem : Str} {back : Nat} {c : Char} (here : mem[back]? = some c)
    (solid : isSpace c = false) (n : Nat)
    (spaces : ∀ i, back < i → i ≤ back + n → ∃ d, mem[i]? = some d ∧ isSpace d = true) :
    ∃ touched, scanBack mem (back + n + 1) = some { at_ := back, touched } ∧
      ∀ i ∈ touched, back ≤ i ∧ i ≤ back + n := by
  induction n with
  | zero =>
    refine ⟨[back], ?_, by simp⟩
    simp only [scanBack, here, solid]
    rfl
  | succ n ih =>
    obtain ⟨touched, scanned, inside⟩ := ih (fun i low high => spaces i low (by omega))
    obtain ⟨d, there, space⟩ := spaces (back + n + 1) (by omega) (by omega)
    refine ⟨(back + n + 1) :: touched, ?_, ?_⟩
    · rw [← Nat.add_assoc, scanBack, there]
      simp only [space, if_true, scanned, Option.map_some]
    · rw [List.forall_mem_cons]
      refine ⟨by omega, fun i member => ?_⟩
      have bounds := inside i member
      omega

/-- Where all of it is white space, the scan goes on below. -/
theorem scanBack_passes {mem : Str} {low : Nat} (n : Nat)
    (spaces : ∀ i, low ≤ i → i < low + n → ∃ d, mem[i]? = some d ∧ isSpace d = true)
    {r : Scan} (scanned : scanBack mem (low + n) = some r) : ∃ i ∈ r.touched, i < low := by
  induction n generalizing r with
  | zero =>
    cases low with
    | zero => simp [scanBack] at scanned
    | succ low =>
      rw [Nat.add_zero, scanBack] at scanned
      refine ⟨low, ?_, Nat.lt_succ_self low⟩
      split at scanned
      · contradiction
      · split at scanned
        · obtain ⟨r', _, rfl⟩ := Option.map_eq_some_iff.mp scanned
          exact List.mem_cons_self
        · obtain rfl := Option.some.inj scanned
          exact List.mem_singleton_self low
  | succ n ih =>
    obtain ⟨d, there, space⟩ := spaces (low + n) (by omega) (by omega)
    rw [← Nat.add_assoc, scanBack, there] at scanned
    simp only [space, if_true] at scanned
    obtain ⟨r', below, rfl⟩ := Option.map_eq_some_iff.mp scanned
    obtain ⟨i, member, small⟩ := ih (fun i high low => spaces i high (by omega)) below
    exact ⟨i, List.mem_cons_of_mem _ member, small⟩

end Pointer

theorem split_first {text : Str} (word : ∃ c ∈ text, isSpace c = false) :
    ∃ pre c rest, text = pre ++ c :: rest ∧ (∀ p ∈ pre, isSpace p = true) ∧ isSpace c = false := by
  induction text with
  | nil => simp at word
  | cons t text ih =>
    cases first : isSpace t with
    | false => exact ⟨[], t, text, rfl, by simp, first⟩
    | true =>
      obtain ⟨c, member, solid⟩ := word
      have later : c ∈ text := by
        rcases List.mem_cons.mp member with rfl | later
        · simp [first] at solid
        · exact later
      obtain ⟨pre, c, rest, rfl, spaces, solid⟩ := ih ⟨c, later, solid⟩
      exact ⟨t :: pre, c, rest, rfl, List.forall_mem_cons.mpr ⟨first, spaces⟩, solid⟩

theorem split_last {text : Str} (word : ∃ c ∈ text, isSpace c = false) :
    ∃ core d suf, text = core ++ d :: suf ∧ isSpace d = false ∧ ∀ p ∈ suf, isSpace p = true := by
  obtain ⟨c, member, solid⟩ := word
  have reversed : ∃ c ∈ text.reverse, isSpace c = false := ⟨c, List.mem_reverse.mpr member, solid⟩
  obtain ⟨pre, d, rest, split, spaces, solid⟩ := split_first reversed
  have after : ∀ p ∈ pre.reverse, isSpace p = true := fun p inside =>
    spaces p (List.mem_reverse.mp inside)
  have body : text = rest.reverse ++ d :: pre.reverse := by
    rw [← List.reverse_reverse text, split]
    simp
  exact ⟨rest.reverse, d, pre.reverse, body, solid, after⟩

theorem ltrim_split {pre rest : Str} {c : Char} (spaces : ∀ p ∈ pre, isSpace p = true)
    (solid : isSpace c = false) : ltrim (pre ++ c :: rest) = c :: rest := by
  rw [ltrim, List.dropWhile_append_of_pos spaces, List.dropWhile_cons_of_neg (by simp [solid])]

theorem rtrim_split {core suf : Str} {d : Char} (solid : isSpace d = false)
    (spaces : ∀ p ∈ suf, isSpace p = true) : rtrim (core ++ d :: suf) = core ++ [d] := by
  rw [rtrim, List.rdropWhile]
  simp only [List.reverse_append, List.reverse_cons, List.append_assoc, List.singleton_append]
  rw [List.dropWhile_append_of_pos (fun p inside => spaces p (List.mem_reverse.mp inside)),
    List.dropWhile_cons_of_neg (by simp [solid])]
  simp

/-- A string cut before its first and behind its last character that is not white space. -/
structure Cut where
  pre : Str
  core : Str
  last : Char
  suf : Str
  before : ∀ p ∈ pre, isSpace p = true
  first : ∃ c rest, core ++ last :: suf = c :: rest ∧ isSpace c = false
  solid : isSpace last = false
  after : ∀ p ∈ suf, isSpace p = true

namespace Cut

variable (w : Cut)

def text : Str := w.pre ++ (w.core ++ w.last :: w.suf)

theorem exists_text {text : Str} (word : ∃ c ∈ text, isSpace c = false) :
    ∃ w : Cut, text = w.text := by
  obtain ⟨pre, c, rest, rfl, before, first⟩ := split_first word
  have inner : ∃ c' ∈ c :: rest, isSpace c' = false := ⟨c, List.mem_cons_self, first⟩
  obtain ⟨core, last, suf, body, solid, after⟩ := split_last inner
  exact ⟨{ pre, core, last, suf, before, solid, after, first := ⟨c, rest, body.symm, first⟩ },
    congrArg (pre ++ ·) body⟩

theorem trim_text : trim w.text = w.core ++ [w.last] := by
  obtain ⟨c, rest, body, first⟩ := w.first
  have left : ltrim w.text = w.core ++ w.last :: w.suf := by
    rw [text, body, ltrim_split w.before first]
  rw [trim, left, rtrim_split w.solid w.after]

theorem text_length : w.text.length = w.pre.length + (w.core.length + w.suf.length + 1) := by
  simp [text, Nat.add_assoc]

section InMemory

variable {w : Cut} {m : InMemory} (whole : m.text = w.text)
include whole

theorem mem_eq : m.mem = (m.below ++ w.pre) ++ (w.core ++ w.last :: (w.suf ++ nul :: m.above)) := by
  rw [InMemory.mem, whole, text]
  simp

omit whole in
theorem start_length : (m.below ++ w.pre).length = m.buf + w.pre.length := List.length_append

theorem ltrim_run : Pointer.ltrim (m.mem.drop m.buf) m.buf =
    some { at_ := m.buf + w.pre.length, touched := List.range' m.buf (w.pre.length + 1) } := by
  obtain ⟨c, rest, body, first⟩ := w.first
  rw [InMemory.mem, InMemory.buf, List.drop_left, whole, text, body, List.append_assoc]
  exact Pointer.ltrim_spaces w.before first _ _

theorem strlen_run : Pointer.strlen (m.mem.drop (m.buf + w.pre.length)) =
    some (w.core.length + w.suf.length + 1) := by
  have plain : nul ∉ w.core ++ w.last :: w.suf := by
    intro member
    apply m.plain
    rw [whole, text]
    exact List.mem_append_right _ member
  have measured := Pointer.strlen_plain plain m.above
  rw [List.append_assoc, List.cons_append] at measured
  rw [mem_eq whole, ← start_length, List.drop_left, measured]
  simp [Nat.add_assoc]

theorem last_here : m.mem[m.buf + w.pre.length + w.core.length]? = some w.last := by
  have length := w.text_length
  rw [Nat.add_assoc, m.mem_text (by rw [whole]; omega), whole, text,
    List.getElem?_append_right (by omega), List.getElem?_append_right (by omega)]
  simp

theorem suf_there (i : Nat) (low : m.buf + w.pre.length + w.core.length < i)
    (high : i ≤ m.buf + w.pre.length + w.core.length + w.suf.length) :
    ∃ p, m.mem[i]? = some p ∧ isSpace p = true := by
  obtain ⟨j, rfl⟩ : ∃ j, i = m.buf + (w.pre.length + (w.core.length + (j + 1))) :=
    ⟨i - (m.buf + w.pre.length + w.core.length + 1), by omega⟩
  have inside : j < w.suf.length := by omega
  have length := w.text_length
  refine ⟨w.suf[j], ?_, w.after _ (List.getElem_mem inside)⟩
  rw [m.mem_text (by rw [whole]; omega), whole, text, List.getElem?_append_right (by omega),
    Nat.add_sub_cancel_left, List.getElem?_append_right (by omega), Nat.add_sub_cancel_left,
    List.getElem?_cons_succ, List.getElem?_eq_getElem inside]

/-- The terminator is stored behind the last word, and the pointer is at the first. -/
theorem stored : cString ((poke m.mem (m.buf + w.pre.length + w.core.length + 1) [nul]).drop
    (m.buf + w.pre.length)) = w.core ++ [w.last] := by
  have front : (m.below ++ w.pre ++ (w.core ++ [w.last])).length =
      m.buf + w.pre.length + w.core.length + 1 := by
    simp [InMemory.buf, Nat.add_assoc]
  have memory : m.mem =
      (m.below ++ w.pre ++ (w.core ++ [w.last])) ++ (w.suf ++ nul :: m.above) := by
    rw [mem_eq whole]
    simp
  have plain : nul ∉ w.core ++ [w.last] := by
    intro member
    apply m.plain
    rw [whole, text]
    rcases List.mem_append.mp member with inner | end_
    · simp [inner]
    · simp [List.mem_singleton.mp end_]
  rw [← front, memory, poke_append, List.append_assoc, ← start_length, List.drop_left]
  exact cString_append _ plain

end InMemory

end Cut

/-- With a word in the string, the two scans stop at its ends. -/
theorem trim_word (m : InMemory) (word : ∃ c ∈ m.text, isSpace c = false) : TrimRight m := by
  obtain ⟨w, whole⟩ := Cut.exists_text word
  obtain ⟨touched, scanned, bounds⟩ := Pointer.scanBack_stops (Cut.last_here whole) w.solid
    w.suf.length (Cut.suf_there whole)
  have back : m.buf + w.pre.length + (w.core.length + w.suf.length + 1) =
      m.buf + w.pre.length + w.core.length + w.suf.length + 1 := by omega
  have run : Pointer.trim m.mem m.buf = some
      { mem := poke m.mem (m.buf + w.pre.length + w.core.length + 1) [nul]
        s := m.buf + w.pre.length
        touched := List.range' m.buf (w.pre.length + 1) ++
          (List.range' (m.buf + w.pre.length) (w.core.length + w.suf.length + 1 + 1) ++ touched ++
            [m.buf + w.pre.length + w.core.length + 1]) } := by
    rw [Pointer.trim, Cut.ltrim_run whole]
    simp only [Option.bind_eq_bind, Option.bind_some, Pointer.rtrim, Cut.strlen_run whole, back,
      scanned]
    rfl
  refine ⟨_, run, ?_, by rw [whole, w.trim_text, Cut.stored whole]⟩
  have length := w.text_length
  rw [← whole] at length
  intro i member
  simp only [List.mem_append, List.mem_range'_1, List.mem_singleton] at member
  rcases member with left | (text | right) | terminator
  · omega
  · omega
  · have bound := bounds i right
    omega
  · omega

section Blank

variable {m : InMemory} (blank : ∀ c ∈ m.text, isSpace c = true)
include blank

theorem blank_there (i : Nat) (low : m.buf ≤ i) (high : i < m.buf + m.text.length) :
    ∃ d, m.mem[i]? = some d ∧ isSpace d = true := by
  obtain ⟨j, rfl⟩ := Nat.exists_eq_add_of_le low
  have within : j < m.text.length := by omega
  refine ⟨m.text[j], ?_, blank _ (List.getElem_mem within)⟩
  rw [m.mem_text within, List.getElem?_eq_getElem within]

/-- The first scan ends at the terminator, and the second starts there. -/
theorem trim_blank_run : Pointer.trim m.mem m.buf =
    (Pointer.scanBack m.mem (m.buf + m.text.length)).map (fun back =>
      { mem := poke m.mem (back.at_ + 1) [nul]
        s := m.buf + m.text.length
        touched := List.range' m.buf (m.text.length + 1) ++
          (List.range' (m.buf + m.text.length) (0 + 1) ++ back.touched ++ [back.at_ + 1]) }) := by
  have left : Pointer.ltrim (m.mem.drop m.buf) m.buf = some
      { at_ := m.buf + m.text.length, touched := List.range' m.buf (m.text.length + 1) } := by
    rw [InMemory.mem, InMemory.buf, List.drop_left]
    exact Pointer.ltrim_spaces blank (by decide) _ _
  have length : Pointer.strlen (m.mem.drop (m.buf + m.text.length)) = some 0 := by
    rw [InMemory.mem, InMemory.buf, ← List.append_assoc, ← List.length_append, List.drop_left]
    rfl
  rw [Pointer.trim, left]
  simp only [Option.bind_eq_bind, Option.bind_some, Pointer.rtrim, length, Nat.add_zero]
  cases Pointer.scanBack m.mem (m.buf + m.text.length) <;> rfl

/-- Without a word in it, the second scan leaves the string at its start. -/
theorem trim_blank : ¬ TrimRight m := by
  rintro ⟨r, run, inside, _⟩
  rw [trim_blank_run blank] at run
  obtain ⟨back, scanned, rfl⟩ := Option.map_eq_some_iff.mp run
  obtain ⟨i, member, below⟩ := Pointer.scanBack_passes m.text.length (blank_there blank) scanned
  have bounds := inside i (by simp [member])
  omega

end Blank

theorem Pointer.scanBack_below {mem : Str} {back : Nat} {r : Scan}
    (scanned : scanBack mem back = some r) : r.at_ < back := by
  induction back generalizing r with
  | zero => cases scanned
  | succ back ih =>
    rw [scanBack] at scanned
    split at scanned
    · contradiction
    · split at scanned
      · obtain ⟨r', below, rfl⟩ := Option.map_eq_some_iff.mp scanned
        exact Nat.lt_succ_of_lt (show r'.at_ < back from ih below)
      · obtain rfl := Option.some.inj scanned
        exact Nat.lt_succ_self back

theorem blank_of_no_word {text : Str} (none_ : ¬ ∃ c ∈ text, isSpace c = false) :
    ∀ c ∈ text, isSpace c = true := by
  intro c member
  cases space : isSpace c with
  | true => rfl
  | false => exact absurd ⟨c, member, space⟩ none_

/-- The string that is returned is the trimmed text, also where the scan left it. -/
theorem trim_string (m : InMemory) {r : Pointer.Trimmed} (run : Pointer.trim m.mem m.buf = some r) :
    cString (r.mem.drop r.s) = trim m.text := by
  by_cases word : ∃ c ∈ m.text, isSpace c = false
  · obtain ⟨r', run', _, text⟩ := trim_word m word
    obtain rfl := Option.some.inj (run'.symm.trans run)
    exact text
  · have blank := blank_of_no_word word
    have nothing : ltrim m.text = [] := List.dropWhile_eq_nil_iff.mpr blank
    rw [trim_blank_run blank] at run
    obtain ⟨back, scanned, rfl⟩ := Option.map_eq_some_iff.mp run
    rw [trim, nothing]
    exact cString_terminated m.mem_terminator (Pointer.scanBack_below scanned)

/-- trim is right exactly for strings with a character that is not white space. -/
theorem trim_right_iff (m : InMemory) : TrimRight m ↔ ∃ c ∈ m.text, isSpace c = false := by
  constructor
  · intro right
    by_contra none_
    exact trim_blank (blank_of_no_word none_) right
  · exact trim_word m

/-- The comm line of a thread without a name, at the start of its buffer. -/
def emptyName : InMemory where
  below := ['x']
  text := ['\n']
  above := []
  plain := by decide

theorem empty_name_overrun : ¬ TrimRight emptyName := trim_blank (List.forall_mem_singleton.mpr rfl)

/-! ## endwith -/

/-- A std::string, whose length is a size_t. -/
structure StdString where
  chars : Str
  fits : chars.length < 2 ^ 64

namespace StdString

def length (s : StdString) : ULong := BitVec.ofNat 64 s.chars.length

def npos : ULong := BitVec.ofNat 64 (2 ^ 64 - 1)

/-- The loop of rfind, downwards from pos. -/
def rfindFrom (s sub : Str) : Nat → Option Nat
  | 0 => if s.take sub.length = sub then some 0 else none
  | pos + 1 =>
    if (s.drop (pos + 1)).take sub.length = sub then some (pos + 1) else rfindFrom s sub pos

/-- The last position at which sub occurs. -/
def rfind (s sub : StdString) : ULong :=
  if sub.chars.length ≤ s.chars.length then
    match rfindFrom s.chars sub.chars (s.chars.length - sub.chars.length) with
    | some pos => BitVec.ofNat 64 pos
    | none => npos
  else npos

end StdString

def endwith (s sub : StdString) : Bool := s.rfind sub = s.length - sub.length

namespace StdString

theorem rfindFrom_le {s sub : Str} {top pos : Nat} (found : rfindFrom s sub top = some pos) :
    pos ≤ top := by
  induction top with
  | zero =>
    rw [rfindFrom] at found
    split at found
    · exact Nat.le_of_eq (Option.some.inj found).symm
    · cases found
  | succ top ih =>
    rw [rfindFrom] at found
    split at found
    · exact Nat.le_of_eq (Option.some.inj found).symm
    · exact Nat.le_succ_of_le (ih found)

/-- The search starts where a suffix would be. -/
theorem rfindFrom_top (s sub : Str) (top : Nat) :
    rfindFrom s sub top = some top ↔ (s.drop top).take sub.length = sub := by
  cases top with
  | zero =>
    rw [rfindFrom, List.drop_zero]
    by_cases here : s.take sub.length = sub
    · simp [here]
    · simp [here]
  | succ top =>
    rw [rfindFrom]
    by_cases here : (s.drop (top + 1)).take sub.length = sub
    · simp [here]
    · simp only [here, if_false, iff_false]
      intro found
      exact absurd (rfindFrom_le found) (by omega)

theorem suffix_iff_take {s sub : Str} (order : sub.length ≤ s.length) :
    sub <:+ s ↔ (s.drop (s.length - sub.length)).take sub.length = sub := by
  have rest : (s.drop (s.length - sub.length)).length ≤ sub.length := by
    rw [List.length_drop]
    omega
  rw [List.suffix_iff_eq_drop, List.take_of_length_le rest, eq_comm]

theorem rfindFrom_nil (s : Str) (top : Nat) : rfindFrom s [] top = some top :=
  (rfindFrom_top s [] top).mpr (by simp)

end StdString

open StdString

theorem length_sub {s sub : StdString} (order : sub.chars.length ≤ s.chars.length) :
    s.length - sub.length = BitVec.ofNat 64 (s.chars.length - sub.chars.length) := by
  apply BitVec.eq_of_toNat_eq
  have fits := s.fits
  simp only [StdString.length, BitVec.toNat_sub, BitVec.toNat_ofNat]
  omega

theorem endwith_shorter (s sub : StdString) (order : sub.chars.length ≤ s.chars.length) :
    endwith s sub = true ↔ sub.chars <:+ s.chars := by
  have fits := s.fits
  rw [suffix_iff_take order, ← rfindFrom_top, endwith, decide_eq_true_iff, rfind, if_pos order,
    length_sub order]
  cases found : rfindFrom s.chars sub.chars (s.chars.length - sub.chars.length) with
  | none =>
    simp only [reduceCtorEq, iff_false]
    intro same
    have numbers := congrArg BitVec.toNat same
    simp only [npos, BitVec.toNat_ofNat] at numbers
    have empty : sub.chars = [] := List.eq_nil_of_length_eq_zero (by omega)
    rw [empty, rfindFrom_nil] at found
    cases found
  | some pos =>
    have below := rfindFrom_le found
    rw [Option.some.injEq]
    constructor
    · intro same
      have numbers := congrArg BitVec.toNat same
      simp only [BitVec.toNat_ofNat] at numbers
      omega
    · rintro rfl
      rfl

/-- A longer sub is not found, and the wrapped difference is npos for one more character. -/
theorem endwith_longer (s sub : StdString) (order : s.chars.length < sub.chars.length) :
    endwith s sub = true ↔ sub.chars.length = s.chars.length + 1 := by
  have fits := sub.fits
  rw [endwith, decide_eq_true_iff, rfind, if_neg (by omega), ← BitVec.toNat_inj]
  simp only [npos, StdString.length, BitVec.toNat_sub, BitVec.toNat_ofNat]
  omega

/-- endwith is right exactly unless sub is one character longer than s. -/
theorem endwith_iff (s sub : StdString) :
    (endwith s sub = true ↔ sub.chars <:+ s.chars) ↔ sub.chars.length ≠ s.chars.length + 1 := by
  rcases Nat.lt_or_ge s.chars.length sub.chars.length with longer | shorter
  · have noSuffix : ¬ sub.chars <:+ s.chars := fun suffix =>
      absurd suffix.length_le (Nat.not_le_of_lt longer)
    rw [endwith_longer s sub longer, iff_false_right noSuffix]
  · exact iff_of_true (endwith_shorter s sub shorter) (by omega)

theorem endwith_one_longer :
    ¬ (endwith ⟨[], by decide⟩ ⟨['a'], by decide⟩ = true ↔ ['a'] <:+ []) := by
  decide

end Obstack
