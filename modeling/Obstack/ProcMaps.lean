import Obstack.Lib.Runs
import Obstack.Maps

/-! The kernel's side of /proc/pid/maps: one printed line for each mapping, and what the
scanner of read_maps obtains from it. -/
namespace Obstack
open CText

/-- A mapping of the traced process, with what the kernel guarantees about the line it
prints: user mappings of files lie in the lower half of the address space. -/
structure Vma where
  start : Nat
  end_ : Nat
  read : Bool
  write : Bool
  exec : Bool
  shared : Bool
  offset : Nat
  major : Nat
  minor : Nat
  inode : Nat
  name : Option Str
  nonempty : start < end_ := by decide
  word : end_ < 2 ^ 64 := by decide
  user : 0 < inode → end_ < 2 ^ 63 := by decide
  offsetWord : offset < 2 ^ 64 := by decide
  majorWord : major < 2 ^ 64 := by decide
  minorWord : minor < 2 ^ 64 := by decide
  inodeWord : inode < 2 ^ 64 := by decide
  visible : ∀ n ∈ name, ∃ c ∈ n.head?, isSpace c = false := by simp [isSpace]
  oneLine : ∀ n ∈ name, '\n' ∉ n := by decide
  deriving DecidableEq

namespace Vma

def flag (set : Bool) (c : Char) : Char := if set then c else '-'

def perms (v : Vma) : Str :=
  [flag v.read 'r', flag v.write 'w', flag v.exec 'x', if v.shared then 's' else 'p']

/-- %08lx-%08lx %4s %08llx %02x:%02x %lu and a blank. -/
def fields (v : Vma) : Str :=
  (hex v.start).leftpad 8 '0' ++ '-' :: ((hex v.end_).leftpad 8 '0' ++ ' ' :: (v.perms ++ ' ' ::
    ((hex v.offset).leftpad 8 '0' ++ ' ' :: ((hex v.major).leftpad 2 '0' ++ ':' ::
      ((hex v.minor).leftpad 2 '0' ++ ' ' :: (dec v.inode ++ [' ']))))))

/-- A name stands after padding up to column 72 and one more blank. -/
def paddedName (v : Vma) : Str :=
  match v.name with
  | none => []
  | some n => List.replicate (72 - v.fields.length + 1) ' ' ++ n

def line (v : Vma) : Str := v.fields ++ (v.paddedName ++ ['\n'])

def isNamed (v : Vma) : Bool := v.name.isSome

/-- What %255s reads of the name: it stops at white space and at its width. -/
def path (v : Vma) : Str := ((v.name.getD []).takeWhile (fun c => !isSpace c)).take 255

/-- What %ld reads of the inode. -/
def scannedInode (v : Vma) : Nat := min v.inode (2 ^ 63 - 1)

/-- The record read_maps works on for a named line. -/
def next (v : Vma) : Next where
  nextStart := BitVec.ofNat 64 v.start
  nextEnd := BitVec.ofNat 64 v.end_
  nextPerms := v.perms
  nextOffset := BitVec.ofNat 64 v.offset
  nextMajor := BitVec.ofNat 64 v.major
  nextMinor := BitVec.ofNat 64 v.minor
  nextInode := BitVec.ofNat 64 v.scannedInode
  nextPath := v.path

/-- The lines of the file in the kernel's order: ascending, without overlap. -/
abbrev Ascending (vmas : List Vma) : Prop := Sorted.Ascending Vma.start Vma.end_ vmas

def file (vmas : List Vma) : Str := (vmas.map line).flatten

/-! What the scanner makes of a printed line. -/

theorem perms_length (v : Vma) : v.perms.length = 4 := rfl

theorem perms_solid (v : Vma) : ∀ c ∈ v.perms, isSpace c = false := by
  have flags : ∀ set c, isSpace c = false → isSpace (flag set c) = false := by
    intro set c solid
    cases set
    · rfl
    · exact solid
  intro c hc
  simp only [perms, List.mem_cons, List.not_mem_nil, or_false] at hc
  rcases hc with rfl | rfl | rfl | rfl
  · exact flags _ _ (by decide)
  · exact flags _ _ (by decide)
  · exact flags _ _ (by decide)
  · cases v.shared <;> decide

theorem sscanf_fields (v : Vma) (rest : Str) :
    sscanf mapsFormat (v.fields ++ rest) =
      [.num (BitVec.ofNat 64 v.start), .num (BitVec.ofNat 64 v.end_), .str v.perms,
        .num (BitVec.ofNat 64 v.offset), .num (BitVec.ofNat 64 v.major),
        .num (BitVec.ofNat 64 v.minor), .num (BitVec.ofNat 64 v.scannedInode)] ++
      sscanf [.s 255] rest := by
  have start := v.nonempty.trans v.word
  simp only [mapsFormat, fields, List.append_assoc, List.cons_append]
  rw [sscanf_hex start (stops_cons (by decide)), sscanf_lit,
    sscanf_hex v.word (stops_cons (by decide)), sscanf_blank_s, sscanf_s_space,
    sscanf_word v.perms_solid (by simp [perms]) v.perms_length, sscanf_blank_lx, sscanf_lx_space,
    sscanf_hex v.offsetWord (stops_cons (by decide)), sscanf_blank_lx, sscanf_lx_space,
    sscanf_hex v.majorWord (stops_cons (by decide)), sscanf_lit,
    sscanf_hex v.minorWord (stops_cons (by decide)), sscanf_blank_ld, sscanf_ld_space,
    sscanf_dec (stops_cons (by decide)), sscanf_blank_s]
  simp [scannedInode]

theorem name_cons (v : Vma) {n : Str} (named : v.name = some n) :
    ∃ c cs, n = c :: cs ∧ isSpace c = false := by
  obtain ⟨c, head, solid⟩ := v.visible n named
  cases n with
  | nil => simp at head
  | cons d cs =>
    obtain rfl : d = c := by simpa using head
    exact ⟨d, cs, rfl, solid⟩

theorem readWord_name (v : Vma) {n : Str} (named : v.name = some n) :
    readWord 255 (v.paddedName ++ ['\n']) = v.path := by
  obtain ⟨c, cs, rfl, solid⟩ := v.name_cons named
  simp only [paddedName, named, List.append_assoc, readWord_blanks, path, Option.getD_some]
  have start : (c :: cs ++ ['\n']).dropWhile isSpace = c :: cs ++ ['\n'] := by simp [solid]
  have ended : (c :: cs ++ ['\n']).takeWhile (fun c => !isSpace c) =
      (c :: cs).takeWhile (fun c => !isSpace c) := by
    have stop : isSpace '\n' = true := by decide
    rw [List.takeWhile_append]
    split
    · rename_i full
      rw [(List.takeWhile_prefix _).eq_of_length full]
      simp [stop]
    · rfl
  rw [readWord, start, ended]

theorem path_ne_nil (v : Vma) (named : v.isNamed = true) : v.path ≠ [] := by
  obtain ⟨n, hn⟩ := Option.isSome_iff_exists.mp named
  obtain ⟨c, cs, rfl, solid⟩ := v.name_cons hn
  simp [path, hn, solid]

theorem scanLine_named (v : Vma) (named : v.isNamed = true) : scanLine v.line = some v.next := by
  obtain ⟨n, hn⟩ := Option.isSome_iff_exists.mp named
  have word := v.readWord_name hn
  have last : sscanf [.s 255] (v.paddedName ++ ['\n']) = [.str v.path] := by
    simp [sscanf, word, v.path_ne_nil named]
  simp only [scanLine, line, sscanf_fields, last]
  rfl

theorem scanLine_unnamed (v : Vma) (unnamed : v.isNamed = false) : scanLine v.line = none := by
  have none : v.name = none := by simpa [isNamed] using unnamed
  have last : sscanf [.s 255] (v.paddedName ++ ['\n']) = [] := by
    simp only [paddedName, none]
    decide
  simp only [scanLine, line, sscanf_fields, last]
  rfl

theorem permsExec_next (v : Vma) : permsExec v.perms = v.exec := by
  cases h : v.exec <;> simp [permsExec, perms, flag, h]

theorem fields_oneLine (v : Vma) : '\n' ∉ v.fields := by
  have flags : '\n' ∉ v.perms := fun member => absurd (v.perms_solid _ member) (by decide)
  have hexadecimal (n : Nat) : '\n' ∉ hex n := toDigits_no_space (by decide) (by decide) n (by decide)
  have decimal : '\n' ∉ dec v.inode := toDigits_no_space (by decide) (by decide) _ (by decide)
  simp [fields, hexadecimal, decimal, flags]

theorem line_isLine (v : Vma) : IsLine v.line := by
  refine ⟨v.fields ++ v.paddedName, by simp [line], ?_⟩
  intro member
  rcases List.mem_append.mp member with member | member
  · exact v.fields_oneLine member
  · unfold paddedName at member
    split at member
    · simp at member
    · rename_i n named
      rcases List.mem_append.mp member with pad | name
      · exact absurd (List.eq_of_mem_replicate pad) (by decide)
      · exact v.oneLine n named name

/-- The pieces fgets makes of the line scan as the line's own record and as nothing else. -/
def ReadWhole (v : Vma) : Prop :=
  (readLines 1024 v.line).filterMap scanLine = if v.isNamed then [v.next] else []

theorem readWhole_of_fits (v : Vma) (fit : v.line.length < 1024) : v.ReadWhole := by
  rw [ReadWhole, readLines_fits v.line_isLine fit]
  cases named : v.isNamed with
  | true => simp [scanLine_named v named]
  | false => simp [scanLine_unnamed v named]

/-- The records read_maps obtains from the file: one for each named line, in order. -/
theorem scan_file {vmas : List Vma} (whole : ∀ v ∈ vmas, v.ReadWhole) :
    (readLines 1024 (file vmas)).filterMap scanLine = (vmas.filter isNamed).map next := by
  have ended : ∀ l ∈ vmas.map line, IsLine l := by
    intro l hl
    obtain ⟨v, _, rfl⟩ := List.mem_map.mp hl
    exact v.line_isLine
  rw [file, readLines_flatten (by decide) _ ended]
  clear ended
  induction vmas with
  | nil => rfl
  | cons v vmas ih =>
    have first : (readLines 1024 v.line).filterMap scanLine = _ := whole v (by simp)
    have rest := ih (fun w hw => whole w (by simp [hw]))
    rw [List.map_cons, List.flatMap_cons, List.filterMap_append, first, rest]
    cases named : v.isNamed <;> simp [named]

end Vma

end Obstack
