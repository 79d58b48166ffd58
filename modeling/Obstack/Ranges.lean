import Mathlib.Order.Bounds.Basic
import Obstack.Coverage
import Obstack.Lookup

/-! The range invariant behind the two searches: read_maps turns ascending lines into
ascending Maps, and load_maps turns those into sorted disjoint pt_loads. -/
namespace Obstack
open CText Runs Vma

/-- The lines on which all eight fields are scanned. -/
def scannedLines (vmas : List Vma) : List Vma := vmas.filter (fun v => (scanLine v.line).isSome)

theorem scannedLines_eq (vmas : List Vma) : scannedLines vmas = named vmas := by
  apply List.filter_congr
  intro v _
  cases isNamed : v.isNamed with
  | true => rw [v.scanLine_named isNamed]; rfl
  | false => rw [v.scanLine_unnamed isNamed]; rfl

/-- The entry of a run: path of the first line, least start and greatest end. -/
structure Map.IsHull (m : Map) (r : Run Vma) : Prop where
  path : m.path = r.first.path
  least : IsLeast {a | ∃ v ∈ r.toList, v.start = a} m.start.toNat
  greatest : IsGreatest {a | ∃ v ∈ r.toList, v.end_ = a} m.end_.toNat

section

variable {vmas : List Vma}

theorem inodeRuns_eq (inodes : ∀ v ∈ vmas, v.inode < 2 ^ 63) :
    runs Vma.inode (named vmas) = inodeRuns vmas := by
  apply runs_congr
  intro v hv w hw
  have small (u : Vma) (hu : u ∈ named vmas) : u.scannedInode = u.inode := by
    have bound := inodes u (mem_named.mp hu).1
    simp only [scannedInode]
    omega
  rw [small v hv, small w hw]

theorem mapOf_isHull (stat : Str → Option Stat) (pid : Nat) (asc : Vma.Ascending vmas)
    {r : Run Vma} (member : r ∈ inodeRuns vmas) : (mapOf stat pid r).IsHull r := by
  obtain ⟨start, end_⟩ := mapOf_range stat pid r
  have contains := hull_contains asc member
  refine ⟨rfl, ?_, ?_⟩
  · rw [start]
    refine ⟨⟨r.first, r.first_mem, rfl⟩, ?_⟩
    rintro _ ⟨v, hv, rfl⟩
    exact (contains v hv).1
  · rw [end_]
    refine ⟨⟨r.last, r.last_mem, rfl⟩, ?_⟩
    rintro _ ⟨v, hv, rfl⟩
    exact (contains v hv).2

theorem mapOf_ascending (stat : Str → Option Stat) (pid : Nat) (asc : Vma.Ascending vmas)
    {rs : List (Run Vma)} (sub : rs.Sublist (inodeRuns vmas)) :
    Sorted.Ascending Map.lo Map.hi (rs.map (mapOf stat pid)) := by
  have runsAscending := inodeRuns_ascending asc
  constructor
  · intro m hm
    obtain ⟨r, hr, rfl⟩ := List.mem_map.mp hm
    have wide := runsAscending.nonempty r (sub.subset hr)
    rw [Map.lo, Map.hi, (mapOf_range stat pid r).1, (mapOf_range stat pid r).2]
    exact wide
  · refine List.pairwise_map.mpr ((runsAscending.apart.sublist sub).imp ?_)
    intro r s apart
    rw [Map.lo, Map.hi, (mapOf_range stat pid r).2, (mapOf_range stat pid s).1]
    exact apart

theorem readMaps_ascending (stat : Str → Option Stat) (pid : Nat) (junk : Next) (uninit : Locals)
    (asc : Vma.Ascending vmas) (whole : ∀ v ∈ vmas, v.ReadWhole) :
    Sorted.Ascending Map.lo Map.hi (readMaps stat pid junk uninit (some (Vma.file vmas))) := by
  rw [readMaps_file stat pid junk uninit asc whole]
  exact mapOf_ascending stat pid asc List.filter_sublist

end

structure StrictlySorted (ps : List PTLoad) : Prop where
  starts : ps.Pairwise (fun p q => p.addrStart < q.addrStart)
  ends : ps.Pairwise (fun p q => p.addrEnd < q.addrEnd)
  ranges : Sorted.Ascending PTLoad.lo PTLoad.hi ps

/-- load_maps leaves sorted disjoint ranges, whatever fails to load and in whatever order the
rest is pushed before sorting. -/
structure LoadsSorted (maps : List Map) : Prop where
  loaded (env : LoadEnv) (conf : Config) : StrictlySorted (loadMaps env conf maps).ptLoads
  anyOrder (env : LoadEnv) (conf : Config) (pushed : List PTLoad)
    (same : pushed.Perm (createdLoads env conf maps)) : StrictlySorted (env.sortLoads.run pushed)

theorem loadsSorted {maps : List Map} (disjoint : Sorted.Disjoint Map.lo Map.hi maps) :
    LoadsSorted maps := by
  have anyOrder (env : LoadEnv) (conf : Config) (pushed : List PTLoad)
      (same : pushed.Perm (createdLoads env conf maps)) :
      StrictlySorted (env.sortLoads.run pushed) := by
    have apart := (createdLoads_disjoint env conf disjoint).perm same
    have asc := sorted_ascending env.sortLoads apart
    exact ⟨asc.strict_lo, asc.strict_hi, asc⟩
  refine ⟨fun env conf => ?_, anyOrder⟩
  rw [loadMaps_ptLoads]
  exact anyOrder env conf _ (List.Perm.refl _)

/-- The lines on which all fields are scanned are the named ones. Entries and runs of these
correspond one to one, in order; a run is kept on account of its first line, the last of the file
like any other. -/
theorem readMaps_ranges (stat : Str → Option Stat) (pid : Nat) (junk : Next) (uninit : Locals)
    (vmas : List Vma) (asc : Vma.Ascending vmas) (fit : ∀ v ∈ vmas, v.line.length < 1024)
    (inodes : ∀ v ∈ vmas, v.inode < 2 ^ 63) :
    scannedLines vmas = vmas.filter Vma.isNamed ∧
      List.Forall₂ Map.IsHull (readMaps stat pid junk uninit (some (Vma.file vmas)))
        ((runs Vma.inode (vmas.filter Vma.isNamed)).filter opensText) ∧
      Sorted.Ascending Map.lo Map.hi (readMaps stat pid junk uninit (some (Vma.file vmas))) ∧
      LoadsSorted (readMaps stat pid junk uninit (some (Vma.file vmas))) := by
  have whole := readWhole_of_fits_all fit
  have ascending := readMaps_ascending stat pid junk uninit asc whole
  refine ⟨scannedLines_eq vmas, ?_, ascending, loadsSorted ascending.disjoint⟩
  rw [readMaps_file stat pid junk uninit asc whole, ← named, inodeRuns_eq inodes,
    List.forall₂_map_left_iff]
  apply List.forall₂_same.mpr
  intro r hr
  exact mapOf_isHull stat pid asc (List.mem_filter.mp hr).1

theorem readMaps_ranges_text :
    scannedLines processLines = processLines.filter Vma.isNamed ∧
      List.Forall₂ Map.IsHull
        (readMaps programStat 1 default default (some (Vma.file processLines)))
        ((runs Vma.inode (processLines.filter Vma.isNamed)).filter opensText) ∧
      Sorted.Ascending Map.lo Map.hi
        (readMaps programStat 1 default default (some (Vma.file processLines))) ∧
      LoadsSorted (readMaps programStat 1 default default (some (Vma.file processLines))) :=
  readMaps_ranges _ _ _ _ processLines processLines_ascending (by decide) (by decide)

end Obstack
