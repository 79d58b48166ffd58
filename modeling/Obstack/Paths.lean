import Obstack.MapRuns

/-! Parsing against printing, for mappings of files with any path. The first piece of a line
always scans; its path is the printed one up to white space and 255 characters, and what is
left of a longer line is scanned on its own. -/
namespace Obstack
open CText Runs

/-- mangle_path: a newline is printed as four characters, all others as they are. -/
def mangle (path : Str) : Str :=
  path.flatMap (fun c => if c = '\n' then ['\\', '0', '1', '2'] else [c])

/-- A mapping of an existing file, with the file's path. -/
structure FileVma where
  vma : Vma
  path : Str
  printed : vma.name = some (mangle path)
  absolute : path.head? = some '/'
  backed : 0 < vma.inode

structure FileVma.IsRecord (f : FileVma) (n : Next) : Prop where
  start : n.nextStart = BitVec.ofNat 64 f.vma.start
  end_ : n.nextEnd = BitVec.ofNat 64 f.vma.end_
  perms : n.nextPerms = f.vma.perms
  inode : n.nextInode = BitVec.ofNat 64 f.vma.inode
  path : n.nextPath = f.path

/-- The maps file of a process whose mappings are all of files. -/
def fileText (fs : List FileVma) : Str := Vma.file (fs.map FileVma.vma)

def records (text : Str) : List Next := (readLines 1024 text).filterMap scanLine

/-- One record for each mapping and nothing else, and Maps with the full path of a file that
is mapped in their range. -/
structure ParsedBack (stat : Str → Option Stat) (pid : Nat) (junk : Next) (uninit : Locals)
    (fs : List FileVma) : Prop where
  records : List.Forall₂ FileVma.IsRecord fs (records (fileText fs))
  paths : ∀ m ∈ readMaps stat pid junk uninit (some (fileText fs)), ∃ f ∈ fs, m.path = f.path ∧
    m.start.toInt ≤ f.vma.start ∧ f.vma.end_ ≤ m.end_.toInt

/-! ## The pieces of a line -/

namespace Vma

variable (v : Vma)

theorem fields_length : v.fields.length ≤ 111 := by
  have address {n : Nat} (word : n < 2 ^ 64) : (hex n).length ≤ 16 := hex_length_le (by decide) word
  have start := address (v.nonempty.trans v.word)
  have end_ := address v.word
  have offset := address v.offsetWord
  have major := address v.majorWord
  have minor := address v.minorWord
  have inode : (dec v.inode).length ≤ 20 :=
    (Nat.length_toDigits_le_iff (by decide) (by decide)).mpr (v.inodeWord.trans (by decide))
  have perms := v.perms_length
  simp only [fields, List.length_append, List.length_cons, List.length_nil, List.length_leftpad]
  omega

/-- What comes after the first piece of the line. -/
def extras : List Next := records (v.line.drop 1023)

theorem readWord_cut {n : Str} (named : v.name = some n) {k : Nat} (room : 400 ≤ k) :
    readWord 255 ((v.paddedName ++ ['\n']).take k) = v.path := by
  obtain ⟨c, cs, rfl, solid⟩ := v.name_cons named
  have whole := v.readWord_name named
  have pad : (List.replicate (72 - v.fields.length + 1) ' ').length ≤ 73 := by
    rw [List.length_replicate]
    omega
  simp only [paddedName, named, List.append_assoc, readWord_blanks] at whole ⊢
  rw [List.take_append, List.take_of_length_le (by omega), readWord_blanks,
    readWord_take (by simp [solid]) (by omega), whole]

theorem scanLine_first (named : v.isNamed = true) : scanLine (v.line.take 1023) = some v.next := by
  obtain ⟨n, hn⟩ := Option.isSome_iff_exists.mp named
  have short := v.fields_length
  have piece : v.line.take 1023 = v.fields ++ (v.paddedName ++ ['\n']).take (1023 - v.fields.length) := by
    rw [line, List.take_append, List.take_of_length_le (by omega)]
  have word := v.readWord_cut hn (show 400 ≤ 1023 - v.fields.length by omega)
  have last : sscanf [.s 255] ((v.paddedName ++ ['\n']).take (1023 - v.fields.length)) =
      [.str v.path] := by
    simp [sscanf, word, v.path_ne_nil named]
  simp only [scanLine, piece, sscanf_fields, last]
  rfl

theorem records_line (named : v.isNamed = true) : records v.line = v.next :: v.extras := by
  have nonempty : v.line ≠ [] := by simp [line]
  rw [records, readLines_step (by decide) nonempty, fgets_isLine _ v.line_isLine, List.filterMap_cons,
    v.scanLine_first named]
  rfl

theorem extras_short (short : v.line.length ≤ 1023) : v.extras = [] := by
  rw [extras, List.drop_of_length_le short]
  rfl

end Vma

/-! ## Reading a whole file -/

namespace FileVma

variable (f : FileVma)

theorem isNamed : f.vma.isNamed = true := by simp [Vma.isNamed, f.printed]

theorem records_file (fs : List FileVma) :
    records (fileText fs) = fs.flatMap (fun f => f.vma.next :: f.vma.extras) := by
  have ended : ∀ l ∈ (fs.map FileVma.vma).map Vma.line, IsLine l := by
    intro l hl
    obtain ⟨v, _, rfl⟩ := List.mem_map.mp hl
    exact v.line_isLine
  rw [records, fileText, Vma.file, readLines_flatten (by decide) _ ended, List.filterMap_flatMap,
    List.flatMap_map, List.flatMap_map]
  apply List.flatMap_congr
  intro f _
  exact f.vma.records_line f.isNamed

/-- The condition on one mapping: no white space in the path, the path no longer than the
conversion reads, and an inode number that fits a long. -/
structure Scannable : Prop where
  solid : ∀ c ∈ f.path, isSpace c = false
  short : f.path.length ≤ 255
  inode : f.vma.inode < 2 ^ 63

theorem mangle_solid {path : Str} (solid : ∀ c ∈ path, isSpace c = false) : mangle path = path := by
  have plain : ∀ c ∈ path, (if c = '\n' then ['\\', '0', '1', '2'] else [c]) = [c] := by
    intro c member
    refine if_neg ?_
    rintro rfl
    exact absurd (solid _ member) (by decide)
  rw [mangle, List.flatMap_congr plain]
  simp

theorem isRecord_iff : f.IsRecord f.vma.next ↔ f.Scannable := by
  have path : f.vma.path = ((mangle f.path).takeWhile (fun c => !isSpace c)).take 255 := by
    rw [Vma.path, f.printed]
    rfl
  constructor
  · intro record
    have same : f.vma.path = f.path := record.path
    have number : f.vma.scannedInode % 2 ^ 64 = f.vma.inode % 2 ^ 64 := by
      have words := congrArg BitVec.toNat record.inode
      simpa [Vma.next] using words
    have word := f.vma.inodeWord
    constructor
    case solid =>
      intro c member
      rw [← same, path] at member
      have kept := List.mem_takeWhile_imp (List.mem_of_mem_take member)
      simpa using kept
    case short =>
      rw [← same, path, List.length_take]
      omega
    case inode =>
      simp only [Vma.scannedInode] at number
      omega
  · intro ok
    have scanned : f.vma.scannedInode = f.vma.inode := by
      have small := ok.inode
      simp only [Vma.scannedInode]
      omega
    have whole : f.vma.path = f.path := by
      have all : f.path.takeWhile (fun c => !isSpace c) = f.path :=
        List.takeWhile_eq_self_iff.mpr (fun c member => by simp [ok.solid c member])
      rw [path, mangle_solid ok.solid, all, List.take_of_length_le ok.short]
    refine ⟨rfl, rfl, rfl, ?_, whole⟩
    change BitVec.ofNat 64 f.vma.scannedInode = _
    rw [scanned]

theorem Scannable.extras {f : FileVma} (ok : f.Scannable) : f.vma.extras = [] := by
  have fields := f.vma.fields_length
  have short := ok.short
  apply f.vma.extras_short
  simp only [Vma.line, Vma.paddedName, f.printed, mangle_solid ok.solid, List.length_append,
    List.length_replicate, List.length_singleton]
  omega

end FileVma

theorem extendRun_grows (l : Locals) (n : Next) :
    (extendRun l n).minAddr.toInt ≤ l.minAddr.toInt ∧ l.maxAddr.toInt ≤ (extendRun l n).maxAddr.toInt := by
  simp only [extendRun, BitVec.slt_eq_decide, decide_eq_true_eq]
  constructor
  · split <;> omega
  · split <;> omega

theorem fold_grows (ns : List Next) (l : Locals) :
    (ns.foldl extendRun l).minAddr.toInt ≤ l.minAddr.toInt ∧
      l.maxAddr.toInt ≤ (ns.foldl extendRun l).maxAddr.toInt := by
  induction ns generalizing l with
  | nil => exact ⟨Int.le_refl _, Int.le_refl _⟩
  | cons n ns ih =>
    obtain ⟨low, high⟩ := extendRun_grows l n
    obtain ⟨least, greatest⟩ := ih (extendRun l n)
    exact ⟨Int.le_trans least low, Int.le_trans high greatest⟩

theorem pushedMap_fields {stat : Str → Option Stat} {pid : Nat} {l : Locals} {m : Map}
    (pushed : pushedMap stat pid l = some m) :
    m.path = l.path ∧ m.start = l.minAddr ∧ m.end_ = l.maxAddr := by
  unfold pushedMap at pushed
  split at pushed
  · obtain rfl := Option.some.inj pushed
    exact ⟨rfl, rfl, rfl⟩
  · cases pushed

theorem parts_empty {α β : Type} {first : α → β} {more : α → List β} {xs : List α}
    (length : (xs.flatMap (fun x => first x :: more x)).length = xs.length) :
    ∀ x ∈ xs, more x = [] := by
  have atLeast (xs : List α) : xs.length ≤ (xs.flatMap (fun x => first x :: more x)).length := by
    induction xs with
    | nil => exact Nat.le_refl 0
    | cons x xs ih =>
      rw [List.flatMap_cons, List.length_append, List.length_cons, List.length_cons]
      omega
  induction xs with
  | nil => simp
  | cons x xs ih =>
    have rest := atLeast xs
    rw [List.flatMap_cons, List.length_append, List.length_cons, List.length_cons] at length
    have none : more x = [] := List.eq_nil_of_length_eq_zero (by omega)
    rw [List.forall_mem_cons]
    exact ⟨none, ih (by omega)⟩

section ParsedBack

variable {stat : Str → Option Stat} {pid : Nat} {junk : Next} {uninit : Locals} {fs : List FileVma}

theorem ParsedBack.isRecord (parsed : ParsedBack stat pid junk uninit fs) :
    ∀ f ∈ fs, f.IsRecord f.vma.next := by
  have records := parsed.records
  rw [FileVma.records_file] at records
  have none := parts_empty records.length_eq.symm
  have plain : fs.flatMap (fun f => f.vma.next :: f.vma.extras) = fs.map (fun f => f.vma.next) := by
    rw [List.map_eq_flatMap]
    apply List.flatMap_congr
    intro f member
    rw [none f member]
  rw [plain, List.forall₂_map_right_iff, List.forall₂_same] at records
  exact records

theorem records_scannable (ok : ∀ f ∈ fs, f.Scannable) :
    records (fileText fs) = fs.map (fun f => f.vma.next) := by
  rw [FileVma.records_file, List.map_eq_flatMap]
  apply List.flatMap_congr
  intro f member
  rw [(ok f member).extras]

theorem readMaps_member {text : Str} (inodes : ∀ n ∈ records text, n.nextInode ≠ -1) {m : Map}
    (member : m ∈ readMaps stat pid junk uninit (some text)) :
    ∃ n ∈ records text, m.path = n.nextPath ∧ m.start.toInt ≤ n.nextStart.toInt ∧
      n.nextEnd.toInt ≤ m.end_.toInt := by
  rw [readMaps_runs stat pid junk uninit text inodes] at member
  obtain ⟨l, inRuns, pushed⟩ := List.mem_filterMap.mp member
  obtain ⟨r, inside, rfl⟩ := List.mem_map.mp inRuns
  obtain ⟨path, start, end_⟩ := pushedMap_fields pushed
  obtain ⟨_, samePath, _⟩ := Vma.fold_carried r.others (startRun r.first)
  obtain ⟨low, high⟩ := fold_grows r.others (startRun r.first)
  refine ⟨r.first, mem_runs.mpr ⟨r, inside, r.first_mem⟩, path.trans samePath, ?_, ?_⟩
  · rw [start]
    exact low
  · rw [end_]
    exact high

theorem parsedBack_of_scannable (ok : ∀ f ∈ fs, f.Scannable) : ParsedBack stat pid junk uninit fs := by
  have all := records_scannable ok
  constructor
  case records =>
    rw [all, List.forall₂_map_right_iff, List.forall₂_same]
    exact fun f member => f.isRecord_iff.mpr (ok f member)
  case paths =>
    intro m member
    obtain ⟨n, inText, path, low, high⟩ := readMaps_member (by
      rw [all]
      intro n hn
      obtain ⟨f, _, rfl⟩ := List.mem_map.mp hn
      exact f.vma.inode_ne_sentinel) member
    rw [all] at inText
    obtain ⟨f, inside, rfl⟩ := List.mem_map.mp inText
    have user := f.vma.user f.backed
    have wide := f.vma.nonempty
    have address {a : Nat} (small : a < 2 ^ 63) : (BitVec.ofNat 64 a).toInt = a := by
      rw [BitVec.toInt_eq_toNat_of_lt] <;> simp <;> omega
    have start : f.vma.next.nextStart.toInt = f.vma.start := address (by omega)
    have end_ : f.vma.next.nextEnd.toInt = f.vma.end_ := address user
    have record := f.isRecord_iff.mpr (ok f inside)
    exact ⟨f, inside, path.trans record.path, start ▸ low, end_ ▸ high⟩

end ParsedBack

/-- Parsing undoes printing exactly when each mapping scans: no white space, at most 255
characters, an inode number that fits. -/
theorem parsed_back_iff (stat : Str → Option Stat) (pid : Nat) (junk : Next) (uninit : Locals)
    (fs : List FileVma) : ParsedBack stat pid junk uninit fs ↔ ∀ f ∈ fs, f.Scannable := by
  constructor
  · intro parsed f member
    exact f.isRecord_iff.mp (parsed.isRecord f member)
  · exact parsedBack_of_scannable

/-- Program text of a file whose name has a blank in it. -/
def blankVma : FileVma where
  vma := { start := 0x7f0000005000, end_ := 0x7f0000006000, read := true, write := false,
           exec := true, shared := false, offset := 0x3000, major := 253, minor := 5, inode := 77,
           name := some ['/', 'a', ' ', 'b'] }
  path := ['/', 'a', ' ', 'b']
  printed := by decide
  absolute := by decide
  backed := by decide

/-- Its record and its Map have the path up to the blank. -/
theorem blank_path_cut : ¬ ParsedBack (fun _ => none) 1 default default [blankVma] := by
  intro parsed
  have record := parsed.isRecord blankVma (by simp)
  have cut : blankVma.vma.path = ['/', 'a'] := by decide
  have whole : blankVma.vma.path = ['/', 'a', ' ', 'b'] := record.path
  rw [cut] at whole
  exact absurd whole (by decide)

end Obstack
