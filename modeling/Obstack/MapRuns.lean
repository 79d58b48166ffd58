import Obstack.ProcMaps

/-! What read_maps does to a whole file: the loop is the run-folding loop of the library,
and on the kernel's lines it pushes one Map for each run that opens with an executable
mapping of a file. -/
namespace Obstack
open CText Runs

section Loop

variable (stat : Str → Option Stat) (pid : Nat)

/-- The branches of the loop, for any text: group by inode, push what qualifies. -/
theorem readMapsLoop_groups (junk : Next) (lines : List Str) (l : Locals) (maps : List Map) :
    readMapsLoop stat pid junk lines l maps =
      maps ++ (groupLoop Next.nextInode startRun extendRun l.inode l
        (lines.filterMap scanLine)).filterMap (pushedMap stat pid) := by
  induction lines generalizing l maps with
  | nil => cases h : pushedMap stat pid l <;> simp [readMapsLoop, yieldRun, groupLoop, h]
  | cons line lines ih =>
    rw [readMapsLoop]
    cases scanned : scanLine line with
    | none => simp only [ih, List.filterMap_cons, scanned]
    | some next =>
      simp only [List.filterMap_cons, scanned]
      by_cases same : next.nextInode = l.inode
      · rw [if_neg (by simpa using same), ih, groupLoop, if_pos same]
        rfl
      · rw [if_pos same, ih, groupLoop, if_neg same]
        cases h : pushedMap stat pid l <;> simp [yieldRun, startRun, h]

/-- The run the code pretends to be in before the first line is never pushed. -/
theorem pushedMap_sentinel (l : Locals) : pushedMap stat pid { l with inode := -1 } = none := by
  have negative : (0 : ULong).slt (-1) = false := by decide
  simp only [pushedMap, negative, Bool.false_and, Bool.false_eq_true, if_false]

theorem readMaps_runs (junk : Next) (uninit : Locals) (text : Str)
    (inodes : ∀ n ∈ (readLines 1024 text).filterMap scanLine, n.nextInode ≠ -1) :
    readMaps stat pid junk uninit (some text) =
      ((runs Next.nextInode ((readLines 1024 text).filterMap scanLine)).map
        (summary startRun extendRun)).filterMap (pushedMap stat pid) := by
  rw [readMaps, readMapsLoop_groups, List.nil_append]
  cases records : (readLines 1024 text).filterMap scanLine with
  | nil => rw [groupLoop, List.filterMap_cons, pushedMap_sentinel]; rfl
  | cons n ns =>
    have first : n.nextInode ≠ -1 := inodes n (by simp [records])
    rw [groupLoop, if_neg first, List.filterMap_cons, pushedMap_sentinel, groupLoop_eq]

end Loop

/-! ## The kernel's file -/

namespace Vma

theorem slt_ofNat {m n : Nat} (hm : m < 2 ^ 63) (hn : n < 2 ^ 63) :
    (BitVec.ofNat 64 m).slt (BitVec.ofNat 64 n) = decide (m < n) := by
  rw [BitVec.slt_eq_decide, BitVec.toInt_eq_toNat_of_lt, BitVec.toInt_eq_toNat_of_lt]
  <;> simp <;> omega

theorem scannedInode_lt (v : Vma) : v.scannedInode < 2 ^ 63 := by
  simp only [scannedInode]
  omega

theorem scannedInode_pos (v : Vma) : 0 < v.scannedInode ↔ 0 < v.inode := by
  simp only [scannedInode]
  omega

theorem inode_eq_iff (v w : Vma) :
    v.next.nextInode = w.next.nextInode ↔ v.scannedInode = w.scannedInode := by
  have hv := v.scannedInode_lt
  have hw := w.scannedInode_lt
  simp only [next]
  constructor
  · intro same
    have values : v.scannedInode % 2 ^ 64 = w.scannedInode % 2 ^ 64 := by
      simpa using congrArg BitVec.toNat same
    omega
  · intro same
    rw [same]

theorem inode_ne_sentinel (v : Vma) : v.next.nextInode ≠ -1 := by
  have bound := v.scannedInode_lt
  intro same
  have values : v.scannedInode % 2 ^ 64 = 2 ^ 64 - 1 := by
    simpa [next] using congrArg BitVec.toNat same
  omega

def named (vmas : List Vma) : List Vma := vmas.filter isNamed

/-- Maximal runs of named lines whose inodes read as equal. -/
def inodeRuns (vmas : List Vma) : List (Run Vma) := runs scannedInode (named vmas)

/-- A run is pushed on account of its first line alone. -/
def opensText (r : Run Vma) : Bool :=
  0 < r.first.inode && r.first.exec && r.first.path.head? ≠ some '['

/-- The Map of a run: path of its first line, least start and greatest end. -/
def mapOf (stat : Str → Option Stat) (pid : Nat) (r : Run Vma) : Map where
  path := r.first.path
  start := BitVec.ofNat 64 r.first.start
  end_ := BitVec.ofNat 64 r.last.end_
  isExe := isSameFile stat r.first.path (exePath pid)

/-! Folding a run: only the addresses move, and along ascending lines only the end does. -/

theorem fold_carried (ns : List Next) (l : Locals) :
    (ns.foldl extendRun l).inode = l.inode ∧ (ns.foldl extendRun l).path = l.path ∧
      (ns.foldl extendRun l).hasPermE = l.hasPermE := by
  induction ns generalizing l with
  | nil => exact ⟨rfl, rfl, rfl⟩
  | cons n ns ih => exact ih (extendRun l n)

theorem summary_carried (r : Run Vma) :
    (summary startRun extendRun (r.map next)).inode = BitVec.ofNat 64 r.first.scannedInode ∧
      (summary startRun extendRun (r.map next)).path = r.first.path ∧
      (summary startRun extendRun (r.map next)).hasPermE = r.first.exec := by
  obtain ⟨inode, path, perm⟩ := fold_carried (r.others.map next) (startRun r.first.next)
  exact ⟨inode, path, perm.trans r.first.permsExec_next⟩

theorem fold_range (s : Nat) (v : Vma) (vs : List Vma) (l : Locals) (asc : Ascending (v :: vs))
    (user : ∀ w ∈ v :: vs, w.end_ < 2 ^ 63) (low : s ≤ v.start)
    (least : l.minAddr = BitVec.ofNat 64 s) (greatest : l.maxAddr = BitVec.ofNat 64 v.end_) :
    ((vs.map next).foldl extendRun l).minAddr = BitVec.ofNat 64 s ∧
      ((vs.map next).foldl extendRun l).maxAddr =
        BitVec.ofNat 64 ((v :: vs).getLast (by simp)).end_ := by
  induction vs generalizing v l with
  | nil => exact ⟨least, greatest⟩
  | cons w ws ih =>
    have wide := asc.nonempty v (by simp)
    have wideNext := asc.nonempty w (by simp)
    have order : v.end_ ≤ w.start := (List.pairwise_cons.mp asc.apart).1 w (by simp)
    have boundV := user v (by simp)
    have boundW := user w (by simp)
    have keep : (BitVec.ofNat 64 w.start).slt (BitVec.ofNat 64 s) = false := by
      rw [slt_ofNat (by omega) (by omega)]
      exact decide_eq_false (by omega)
    have grow : (BitVec.ofNat 64 v.end_).slt (BitVec.ofNat 64 w.end_) = true := by
      rw [slt_ofNat boundV boundW]
      exact decide_eq_true (by omega)
    have rest : Ascending (w :: ws) :=
      ⟨fun x hx => asc.nonempty x (by simp [hx]), (List.pairwise_cons.mp asc.apart).2⟩
    rw [List.map_cons, List.foldl_cons, List.getLast_cons_cons]
    apply ih w (extendRun l w.next) rest (fun x hx => user x (by simp [hx])) (by omega)
    · simp [extendRun, least, next, keep]
    · simp [extendRun, greatest, next, grow]

theorem run_ascending {vmas : List Vma} (asc : Ascending vmas) {r : Run Vma}
    (member : r ∈ inodeRuns vmas) : Ascending r.toList := by
  have sub := (run_sublist member).trans List.filter_sublist
  exact ⟨fun v hv => asc.nonempty v (sub.subset hv), asc.apart.sublist sub⟩

theorem run_inode {vmas : List Vma} {r : Run Vma} (member : r ∈ inodeRuns vmas) :
    ∀ v ∈ r.toList, (0 < v.inode ↔ 0 < r.first.inode) := by
  intro v hv
  rw [← scannedInode_pos, ← scannedInode_pos, runs_key member v hv]

theorem run_user {vmas : List Vma} {r : Run Vma} (member : r ∈ inodeRuns vmas)
    (backed : 0 < r.first.inode) : ∀ v ∈ r.toList, v.end_ < 2 ^ 63 :=
  fun v hv => v.user ((run_inode member v hv).mpr backed)

theorem summary_range {vmas : List Vma} (asc : Ascending vmas) {r : Run Vma}
    (member : r ∈ inodeRuns vmas) (backed : 0 < r.first.inode) :
    (summary startRun extendRun (r.map next)).minAddr = BitVec.ofNat 64 r.first.start ∧
      (summary startRun extendRun (r.map next)).maxAddr = BitVec.ofNat 64 r.last.end_ :=
  fold_range r.first.start r.first r.others (startRun r.first.next) (run_ascending asc member)
    (run_user member backed) le_rfl rfl rfl

theorem pushedMap_run (stat : Str → Option Stat) (pid : Nat) {vmas : List Vma}
    (asc : Ascending vmas) {r : Run Vma} (member : r ∈ inodeRuns vmas) :
    pushedMap stat pid (summary startRun extendRun (r.map next)) =
      if opensText r then some (mapOf stat pid r) else none := by
  obtain ⟨inode, path, perm⟩ := summary_carried r
  have positive : (0 : ULong).slt (BitVec.ofNat 64 r.first.scannedInode) =
      decide (0 < r.first.inode) := by
    have compare := slt_ofNat (m := 0) (by decide) r.first.scannedInode_lt
    rw [← decide_eq_decide.mpr r.first.scannedInode_pos]
    exact compare
  rw [pushedMap, inode, path, perm, positive]
  change (if opensText r = true then some _ else none) = _
  by_cases qualifies : opensText r = true
  · have backed : 0 < r.first.inode := by
      simp only [opensText, Bool.and_eq_true, decide_eq_true_eq] at qualifies
      exact qualifies.1.1
    obtain ⟨least, greatest⟩ := summary_range asc member backed
    rw [if_pos qualifies, if_pos qualifies, least, greatest]
    rfl
  · rw [if_neg qualifies, if_neg qualifies]

/-- read_maps on the kernel's file: a Map for each run that opens with program text. -/
theorem readMaps_file (stat : Str → Option Stat) (pid : Nat) (junk : Next) (uninit : Locals)
    {vmas : List Vma} (asc : Ascending vmas) (whole : ∀ v ∈ vmas, v.ReadWhole) :
    readMaps stat pid junk uninit (some (file vmas)) =
      ((inodeRuns vmas).filter opensText).map (mapOf stat pid) := by
  have records : (readLines 1024 (file vmas)).filterMap scanLine = (named vmas).map next := by
    rw [scan_file whole, named]
  have groups : runs Next.nextInode ((named vmas).map next) = (inodeRuns vmas).map (Run.map next) := by
    rw [runs_map, inodeRuns]
    congr 1
    exact runs_congr (fun v _ w _ => inode_eq_iff v w)
  rw [readMaps_runs, records, groups]
  · rw [List.map_map, List.filterMap_map, ← List.filterMap_eq_filter, List.map_filterMap]
    apply List.filterMap_congr
    intro r hr
    simp only [Function.comp_apply, pushedMap_run stat pid asc hr]
    cases text : opensText r <;> simp [Option.guard, text]
  · rw [records]
    intro n hn
    obtain ⟨v, _, rfl⟩ := List.mem_map.mp hn
    exact v.inode_ne_sentinel

end Vma

end Obstack
