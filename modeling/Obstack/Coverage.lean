import Obstack.MapRuns

/-! Which lines of the maps file end up in which Map. A run is pushed on account of its
first line, and covers the addresses of all its lines, of whatever file they are. -/
namespace Obstack
open CText Runs

namespace Vma

/-- An executable mapping of a file: permission x, inode above 0, no bracketed name. -/
def isText (v : Vma) : Bool :=
  v.isNamed && v.exec && 0 < v.inode && (v.name.getD []).head? ≠ some '['

def SameFile (v w : Vma) : Prop := v.major = w.major ∧ v.minor = w.minor ∧ v.inode = w.inode

instance (v w : Vma) : Decidable (SameFile v w) := inferInstanceAs (Decidable (_ ∧ _))

theorem isText_backed {v : Vma} (text : v.isText = true) : v.isNamed = true ∧ 0 < v.inode := by
  simp only [isText, Bool.and_eq_true, decide_eq_true_eq] at text
  exact ⟨text.1.1.1, text.1.2⟩

theorem path_head (v : Vma) : v.path.head? = (v.name.getD []).head? := by
  cases named : v.name with
  | none => simp [path, named]
  | some n =>
    obtain ⟨c, cs, rfl, solid⟩ := v.name_cons named
    simp [path, named, solid]

variable {vmas : List Vma}

theorem mem_named {v : Vma} : v ∈ named vmas ↔ v ∈ vmas ∧ v.isNamed = true := List.mem_filter

theorem run_named {r : Run Vma} (member : r ∈ inodeRuns vmas) :
    ∀ v ∈ r.toList, v ∈ vmas ∧ v.isNamed = true :=
  fun _ hv => mem_named.mp (mem_runs.mpr ⟨r, member, hv⟩)

theorem exists_run {v : Vma} (hv : v ∈ vmas) (isNamed : v.isNamed = true) :
    ∃ r ∈ inodeRuns vmas, v ∈ r.toList := mem_runs.mp (mem_named.mpr ⟨hv, isNamed⟩)

theorem opensText_iff {r : Run Vma} (member : r ∈ inodeRuns vmas) :
    opensText r = r.first.isText := by
  have isNamed := (run_named member _ r.first_mem).2
  simp only [opensText, isText, isNamed, path_head, Bool.true_and]
  rw [Bool.and_comm (decide _) r.first.exec]

theorem inodeRuns_ascending (asc : Ascending vmas) :
    Sorted.Ascending (fun r : Run Vma => r.first.start) (fun r => r.last.end_) (inodeRuns vmas) :=
  hull_ascending ⟨fun v hv => asc.nonempty v (mem_named.mp hv).1,
    asc.apart.sublist List.filter_sublist⟩

theorem hull_contains (asc : Ascending vmas) {r : Run Vma} (member : r ∈ inodeRuns vmas) :
    ∀ v ∈ r.toList, r.first.start ≤ v.start ∧ v.end_ ≤ r.last.end_ :=
  fun v hv => ⟨Run.ascending_first (run_ascending asc member) v hv,
    Run.ascending_last (run_ascending asc member) v hv⟩

theorem run_of_overlap (asc : Ascending vmas) {r s : Run Vma} (hr : r ∈ inodeRuns vmas)
    (hs : s ∈ inodeRuns vmas) {v : Vma} (hv : v ∈ s.toList) (below : v.start < r.last.end_)
    (above : r.first.start < v.end_) : s = r := by
  have inside := hull_contains asc hs v hv
  rcases (inodeRuns_ascending asc).disjoint.eq_or_apart hs hr with same | before | after
  · exact same
  · exact absurd (inside.2.trans before) (Nat.not_le.mpr above)
  · exact absurd (after.trans inside.1) (Nat.not_le.mpr below)

theorem readWhole_of_fits_all (fit : ∀ v ∈ vmas, v.line.length < 1024) :
    ∀ v ∈ vmas, v.ReadWhole := fun v hv => v.readWhole_of_fits (fit v hv)

theorem mapOf_range (stat : Str → Option Stat) (pid : Nat) (r : Run Vma) :
    (mapOf stat pid r).start.toNat = r.first.start ∧ (mapOf stat pid r).end_.toNat = r.last.end_ := by
  have low : r.first.start < 2 ^ 64 := r.first.nonempty.trans r.first.word
  have high := r.last.word
  simp only [mapOf, BitVec.toNat_ofNat]
  omega

end Vma

/-! ## Text that is lost -/

open Vma

def Map.Contains (m : Map) (v : Vma) : Prop := m.start.toNat ≤ v.start ∧ v.end_ ≤ m.end_.toNat

def NoTextLost (vmas : List Vma) (maps : List Map) : Prop :=
  ∀ v ∈ vmas, v.isText = true → ∃ m ∈ maps, m.Contains v

/-- Every run that has program text begins with it. -/
def TextOpensRuns (vmas : List Vma) : Prop :=
  ∀ r ∈ inodeRuns vmas, (∃ v ∈ r.toList, v.isText = true) → r.first.isText = true

theorem readMaps_no_text_lost_iff (stat : Str → Option Stat) (pid : Nat) (junk : Next)
    (uninit : Locals) (vmas : List Vma) (asc : Vma.Ascending vmas)
    (fit : ∀ v ∈ vmas, v.line.length < 1024) :
    NoTextLost vmas (readMaps stat pid junk uninit (some (Vma.file vmas))) ↔
      TextOpensRuns vmas := by
  rw [readMaps_file stat pid junk uninit asc (readWhole_of_fits_all fit)]
  constructor
  · rintro found r hr ⟨v, hv, text⟩
    obtain ⟨m, hm, inside⟩ := found v (run_named hr v hv).1 text
    obtain ⟨s, hs, rfl⟩ := List.mem_map.mp hm
    obtain ⟨hs, opens⟩ := List.mem_filter.mp hs
    rw [Map.Contains, (mapOf_range stat pid s).1, (mapOf_range stat pid s).2] at inside
    have wide := v.nonempty
    have same := run_of_overlap asc hs hr hv (by omega) (by omega)
    rw [← opensText_iff hr, same]
    exact opens
  · intro opens v hv text
    obtain ⟨r, hr, inRun⟩ := exists_run hv (isText_backed text).1
    have first := opens r hr ⟨v, inRun, text⟩
    refine ⟨mapOf stat pid r, List.mem_map_of_mem (List.mem_filter.mpr ⟨hr, ?_⟩), ?_⟩
    · rw [opensText_iff hr, first]
    · rw [Map.Contains, (mapOf_range stat pid r).1, (mapOf_range stat pid r).2]
      exact hull_contains asc hr v inRun

instance (vmas : List Vma) : Decidable (TextOpensRuns vmas) :=
  inferInstanceAs (Decidable (∀ r ∈ inodeRuns vmas, _ → _))

/-- The r--p header and the r-xp text of a library, and text of a file on another device. -/
def headerLine : Vma :=
  { start := 0x7f0000000000, end_ := 0x7f0000001000, read := true, write := false, exec := false,
    shared := false, offset := 0, major := 8, minor := 1, inode := 42, name := some ['/', 'l'] }

def textLine : Vma :=
  { start := 0x7f0000001000, end_ := 0x7f0000002000, read := true, write := false, exec := true,
    shared := false, offset := 0x1000, major := 8, minor := 1, inode := 42,
    name := some ['/', 'l'] }

def foreignLine : Vma :=
  { start := 0x7f0000002000, end_ := 0x7f0000003000, read := true, write := false, exec := true,
    shared := false, offset := 0, major := 8, minor := 2, inode := 42, name := some ['/', 'm'] }

def libraryData : Vma :=
  { start := 0x7f0000201000, end_ := 0x7f0000202000, read := true, write := true, exec := false,
    shared := false, offset := 0x2000, major := 8, minor := 1, inode := 42,
    name := some ['/', 'l'] }

def programText : Vma :=
  { start := 0x400000, end_ := 0x401000, read := true, write := false, exec := true,
    shared := false, offset := 0, major := 8, minor := 1, inode := 7, name := some ['/', 'p'] }

def programData : Vma :=
  { start := 0x601000, end_ := 0x602000, read := true, write := true, exec := false,
    shared := false, offset := 0x1000, major := 8, minor := 1, inode := 7, name := some ['/', 'p'] }

def bssLine : Vma :=
  { start := 0x602000, end_ := 0x603000, read := true, write := true, exec := false,
    shared := false, offset := 0, major := 0, minor := 0, inode := 0, name := none }

def heapLine : Vma :=
  { start := 0x700000, end_ := 0x721000, read := true, write := true, exec := false,
    shared := false, offset := 0, major := 0, minor := 0, inode := 0,
    name := some ['[', 'h', 'e', 'a', 'p', ']'] }

def localeLine : Vma :=
  { start := 0x7f0000300000, end_ := 0x7f0000301000, read := true, write := false, exec := false,
    shared := false, offset := 0, major := 8, minor := 1, inode := 50, name := some ['/', 'c'] }

/-- A program and a library, both of which are linked with their text in front. -/
def processLines : List Vma :=
  [programText, programData, bssLine, heapLine, textLine, libraryData]

theorem processLines_ascending : Vma.Ascending processLines :=
  ⟨by unfold processLines; decide, by unfold processLines; decide⟩

/-- The executable is the program. -/
def programStat (path : Str) : Option Stat :=
  if path = ['/', 'p'] ∨ path = exePath 1 then some { stDev := 0x801, stIno := 7 } else none

/-- A library linked with a read-only first segment loses its text. -/
theorem header_hides_text :
    ¬ NoTextLost [headerLine, textLine]
      (readMaps (fun _ => none) 1 default default (some (Vma.file [headerLine, textLine]))) := by
  rw [readMaps_file _ _ _ _ ⟨by decide, by decide⟩ (readWhole_of_fits_all (by decide))]
  have nothing : (inodeRuns [headerLine, textLine]).filter opensText = [] := by decide
  rw [nothing]
  intro found
  obtain ⟨m, hm, _⟩ := found textLine (by simp) (by decide)
  simp at hm

theorem leading_text_kept :
    NoTextLost processLines
      (readMaps programStat 1 default default (some (Vma.file processLines))) :=
  (readMaps_no_text_lost_iff _ _ _ _ processLines processLines_ascending (by decide)).mpr
    (by decide)

/-! ## Files that are absorbed -/

def Map.Overlaps (m : Map) (v : Vma) : Prop := v.start < m.end_.toNat ∧ m.start.toNat < v.end_

/-- Every file-backed line an entry reaches into maps the file its path was taken from;
that line is the one the entry starts at. -/
def NoFileAbsorbed (vmas : List Vma) (maps : List Map) : Prop :=
  ∀ m ∈ maps, ∃ w ∈ vmas, w.isNamed = true ∧ w.start = m.start.toNat ∧ w.path = m.path ∧
    ∀ v ∈ vmas, v.isNamed = true → 0 < v.inode → m.Overlaps v → v.SameFile w

def TextRunsOneFile (vmas : List Vma) : Prop :=
  ∀ r ∈ inodeRuns vmas, r.first.isText = true → ∀ v ∈ r.toList, v.SameFile r.first

theorem readMaps_no_file_absorbed_iff (stat : Str → Option Stat) (pid : Nat) (junk : Next)
    (uninit : Locals) (vmas : List Vma) (asc : Vma.Ascending vmas)
    (whole : ∀ v ∈ vmas, v.ReadWhole) :
    NoFileAbsorbed vmas (readMaps stat pid junk uninit (some (Vma.file vmas))) ↔
      TextRunsOneFile vmas := by
  rw [readMaps_file stat pid junk uninit asc whole]
  constructor
  · intro apart r hr text v hv
    have pushed : r ∈ (inodeRuns vmas).filter opensText :=
      List.mem_filter.mpr ⟨hr, (opensText_iff hr).trans text⟩
    obtain ⟨w, hw, _, start, _, same⟩ := apart _ (List.mem_map_of_mem pushed)
    rw [(mapOf_range stat pid r).1] at start
    have first := run_named hr _ r.first_mem
    obtain rfl : w = r.first := asc.eq_of_lo hw first.1 start
    have backed := (isText_backed text).2
    have inside := hull_contains asc hr v hv
    have wide := v.nonempty
    refine same v (run_named hr v hv).1 (run_named hr v hv).2 ((run_inode hr v hv).mpr backed) ?_
    rw [Map.Overlaps, (mapOf_range stat pid r).1, (mapOf_range stat pid r).2]
    omega
  · intro oneFile m hm
    obtain ⟨r, hr, rfl⟩ := List.mem_map.mp hm
    obtain ⟨hr, opens⟩ := List.mem_filter.mp hr
    have first := run_named hr _ r.first_mem
    refine ⟨r.first, first.1, first.2, (mapOf_range stat pid r).1.symm, rfl, ?_⟩
    intro v hv isNamed _ overlap
    rw [Map.Overlaps, (mapOf_range stat pid r).1, (mapOf_range stat pid r).2] at overlap
    obtain ⟨s, hs, inRun⟩ := exists_run hv isNamed
    obtain rfl := run_of_overlap asc hr hs inRun overlap.1 overlap.2
    exact oneFile s hr ((opensText_iff hr).symm.trans opens) v inRun

instance (vmas : List Vma) : Decidable (TextRunsOneFile vmas) :=
  inferInstanceAs (Decidable (∀ r ∈ inodeRuns vmas, _ → _))

/-- Neighbouring files with one inode number on two devices share an entry. -/
theorem foreign_text_absorbed :
    ¬ NoFileAbsorbed [textLine, foreignLine]
      (readMaps (fun _ => none) 1 default default (some (Vma.file [textLine, foreignLine]))) := by
  have asc : Vma.Ascending [textLine, foreignLine] := ⟨by decide, by decide⟩
  rw [readMaps_file _ _ _ _ asc (readWhole_of_fits_all (by decide))]
  have pushed : (inodeRuns [textLine, foreignLine]).filter opensText =
      [⟨textLine, [foreignLine]⟩] := by decide
  rw [pushed]
  intro apart
  obtain ⟨w, hw, _, start, _, same⟩ := apart _ (List.mem_singleton.mpr rfl)
  obtain rfl : w = textLine := asc.eq_of_lo hw (by simp) (start.trans (by decide))
  exact absurd (same foreignLine (by simp) (by decide) (by decide) ⟨by decide, by decide⟩)
    (by decide)

theorem single_file_kept :
    NoFileAbsorbed processLines
      (readMaps programStat 1 default default (some (Vma.file processLines))) :=
  (readMaps_no_file_absorbed_iff _ _ _ _ processLines processLines_ascending
    (readWhole_of_fits_all (by decide))).mpr (by decide)

end Obstack
