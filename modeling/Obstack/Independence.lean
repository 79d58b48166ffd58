import Obstack.Report
import Obstack.Store

/-! What the output does not depend on. std::sort and the hash maps leave open in which order
they put things, and -n is told about files that it never reads. -/
namespace Obstack
open CText Sorted Assoc BFDCache Vma

/-- Two runs on one process, both on a terminal or neither: the same maps file, links and program
headers. What the stack holds before read_maps runs may differ. -/
structure SameProcess (env env' : StackEnv) : Prop where
  tty : env'.tty = env.tty
  stat : env'.stat = env.stat
  mapFile : env'.mapFile = env.mapFile
  elf : env'.load.elf = env.load.elf

/-- And on the same symbols, lines and names: only orders and sorts may differ. -/
structure SameFiles (env env' : StackEnv) : Prop extends SameProcess env env' where
  openBfd : env'.load.openBfd = env.load.openBfd
  fileExist : env'.fileExist = env.fileExist
  expandBundle : env'.expandBundle = env.expandBundle
  binary : env'.binary = env.binary
  cplusDemangle : env'.cplusDemangle = env.cplusDemangle

/-! ## Symbol tables and pt_loads -/

/-- Qualifying symbols of one address have one name. -/
def Bfd.Unambiguous (abfd : Bfd) : Prop :=
  ∀ s ∈ expectedEnts abfd, ∀ t ∈ expectedEnts abfd, s.addr = t.addr → s.name = t.name

theorem loadSymbols_sorts (sort sort' : StdSort SymbolEnt.less) {abfd : Bfd}
    (plain : abfd.Unambiguous) (bfdInfo : BFDInfo) :
    loadSymbols sort abfd (newTable bfdInfo) = loadSymbols sort' abfd (newTable bfdInfo) := by
  have sorted : sort.run (((readMinisymbols abfd).filter qualifies).map Asymbol.ent) =
      sort'.run (((readMinisymbols abfd).filter qualifies).map Asymbol.ent) := by
    by_cases reported : abfd.regular = none
    · rw [readMinisymbols_failed abfd reported]
      exact sort.run_eq sort' (List.Perm.refl _) (fun a member => by cases member)
    · rw [readMinisymbols_reported abfd reported, funext qualifies_eq]
      refine sort.run_eq sort' (List.Perm.refl _) ?_
      intro s hs t ht notBelow notAbove
      have addr : s.addr = t.addr := BitVec.le_antisymm
        (BitVec.not_lt.mp (of_decide_eq_false notAbove))
        (BitVec.not_lt.mp (of_decide_eq_false notBelow))
      obtain ⟨_, _⟩ := s
      obtain ⟨_, _⟩ := t
      exact congrArg₂ SymbolEnt.mk addr (plain _ hs _ ht addr)
  unfold loadSymbols
  cases checkStripped abfd.shTypes with
  | true => rfl
  | false =>
    cases abfd.text with
    | none => exact congrArg (fun ents => { newTable bfdInfo with symEnts := ents }) sorted
    | some text =>
      exact congrArg (fun ents => { newTable bfdInfo with
        textVma := text.1, textSize := text.2, symEnts := ents }) sorted

section Loads

variable {env env' : LoadEnv} {conf conf' : Config} {maps : List Map}

theorem sortLoads_eq (disjoint : Disjoint Map.lo Map.hi maps) (sort sort' : StdSort PTLoad.less) :
    sort.run (createdLoads env conf maps) = sort'.run (createdLoads env conf maps) := by
  have created := createdLoads_disjoint env conf disjoint
  refine sort.run_eq sort' (List.Perm.refl _) ?_
  intro p hp q hq notBelow notAbove
  have start : p.lo = q.lo := Nat.le_antisymm (Nat.le_of_not_lt (of_decide_eq_false notAbove))
    (Nat.le_of_not_lt (of_decide_eq_false notBelow))
  rcases created.eq_or_apart hp hq with same | left | right
  · exact same
  · have wide := created.nonempty p hp
    omega
  · have wide := created.nonempty q hq
    omega

theorem createNewPtLoad_sorts (sort sort' : StdSort SymbolEnt.less) (elf : ElfRead)
    {openBfd : Str → Option Bfd} (plain : ∀ file abfd, openBfd file = some abfd → abfd.Unambiguous)
    (c : BFDCache) (m : Map) (loadSyms : Bool) :
    c.createNewPtLoad conf sort elf openBfd m.path m.start m.end_ m.isExe loadSyms =
      c.createNewPtLoad conf sort' elf openBfd m.path m.start m.end_ m.isExe loadSyms := by
  simp only [createNewPtLoad, initInfo]
  cases opened : openBfd (newInfo conf m.path (checkShlib elf 0).2).file with
  | none => rfl
  | some abfd =>
    have tables := loadSymbols_sorts sort sort' (plain _ abfd opened)
      { newInfo conf m.path (checkShlib elf 0).2 with abfd := some abfd }
    rw [newTable] at tables
    simp only [Option.map_some, tables]

theorem loadMapsLoop_sorts (elf : env'.elf = env.elf) (openBfd : env'.openBfd = env.openBfd)
    (plain : ∀ i file abfd, env.openBfd i file = some abfd → abfd.Unambiguous) (i : Nat)
    (c : BFDCache) : loadMapsLoop env' conf i maps c = loadMapsLoop env conf i maps c := by
  induction maps generalizing i c with
  | nil => rfl
  | cons m maps ih =>
    simp only [loadMapsLoop, elf, openBfd,
      createNewPtLoad_sorts env'.sortSyms env.sortSyms (env.elf m.path) (plain i) c m, ih]

/-- With the same outcomes of open_bfd, two sorts lead to one cache. -/
theorem loadMaps_sorts (elf : env'.elf = env.elf) (openBfd : env'.openBfd = env.openBfd)
    (plain : ∀ i file abfd, env.openBfd i file = some abfd → abfd.Unambiguous)
    (disjoint : Disjoint Map.lo Map.hi maps) :
    loadMaps env' conf maps = loadMaps env conf maps := by
  have created : (loadMapsLoop env conf 0 maps {}).1.ptLoads = createdLoads env conf maps :=
    loadMapsLoop_ptLoads env conf 0 maps {}
  rw [loadMaps, loadMaps, sortPtLoad, sortPtLoad, loadMapsLoop_sorts elf openBfd plain, created,
    sortLoads_eq disjoint env'.sortLoads env.sortLoads]

/-- The pt_load of a shape when no table is built. -/
def Shape.bare (s : Shape) : PTLoad := ⟨s.start, s.end_, s.isExe, none, s.loadVaddr⟩

theorem createdLoads_noParse (noParse : conf.noParse = true) :
    createdLoads env conf maps = maps.map (fun m => (m.shape env.elf).bare) := by
  have shapes := shapes_all (loadMapsLoop_shapes env conf 0 maps {})
    (loadMapsLoop_noParse env conf noParse 0 maps {})
  have bare : ∀ p ∈ createdLoads env conf maps, p = p.shape.bare := by
    intro p created
    have sorted : p ∈ (loadMaps env conf maps).ptLoads := by
      rw [loadMaps_ptLoads]
      exact (env.sortLoads.perm _).symm.subset created
    have null : p.st = none := (loadMaps_pointers env conf maps sorted).2 noParse
    obtain ⟨start, end_, isExe, st, loadVaddr⟩ := p
    obtain rfl : st = none := null
    rfl
  calc createdLoads env conf maps
    _ = (createdLoads env conf maps).map (fun p => p.shape.bare) :=
      (List.map_id _).symm.trans (List.map_congr_left bare)
    _ = ((createdLoads env conf maps).map PTLoad.shape).map Shape.bare := by
      rw [List.map_map]
      rfl
    _ = maps.map (fun m => (m.shape env.elf).bare) := by
      rw [createdLoads, shapes, List.map_map]
      rfl

/-- No option but -n itself and no outcome of open_bfd matters to the pt_loads of -n. -/
theorem loadMaps_noParse_eq (elf : env'.elf = env.elf) (noParse : conf.noParse = true)
    (noParse' : conf'.noParse = true) (disjoint : Disjoint Map.lo Map.hi maps) :
    (loadMaps env' conf' maps).ptLoads = (loadMaps env conf maps).ptLoads := by
  have created : createdLoads env' conf' maps = createdLoads env conf maps := by
    rw [createdLoads_noParse noParse', createdLoads_noParse noParse, elf]
  rw [loadMaps_ptLoads, loadMaps_ptLoads, created]
  exact sortLoads_eq disjoint env'.sortLoads env.sortLoads

end Loads

/-! ## The output -/

section Output

variable {env env' : StackEnv} {vmas : List Vma} (asc : Vma.Ascending vmas)
  (whole : ∀ v ∈ vmas, v.ReadWhole) (mapFile : env.mapFile = some (Vma.file vmas)) (pid : Nat)
include asc whole mapFile

/-- Nothing is read that the lines of the kernel do not overwrite first. -/
theorem readMaps_same (same : SameProcess env env') :
    readMaps env'.stat pid env'.junk env'.uninit env'.mapFile =
      readMaps env.stat pid env.junk env.uninit env.mapFile := by
  rw [same.mapFile, mapFile, same.stat, readMaps_file env.stat pid env'.junk env'.uninit asc whole,
    readMaps_file env.stat pid env.junk env.uninit asc whole]

theorem readMaps_disjoint :
    Disjoint Map.lo Map.hi (readMaps env.stat pid env.junk env.uninit env.mapFile) := by
  rw [mapFile]
  exact (readMaps_ascending env.stat pid env.junk env.uninit asc whole).disjoint

/-- The output of -n depends on the maps file, the links and the program headers alone: not on
symbol files, on debug information, or on any other option. -/
theorem stackIt_noParse_process (same : SameProcess env env') {conf conf' : Config}
    (noParse : conf.noParse = true) (noParse' : conf'.noParse = true) (bts : List Bt) :
    stackIt env' conf' { pid, bts } = stackIt env conf { pid, bts } := by
  have loads := loadMaps_noParse_eq same.elf noParse noParse'
    (readMaps_disjoint asc whole mapFile pid)
  simp only [stackIt, noParse, noParse', if_true, List.nil_append, same.tty,
    readMaps_same asc whole mapFile pid same]
  congr 1
  apply List.flatMap_congr
  intro bt _
  simp only [printNoParse, noParseValue, findPtLoad, loads]

end Output

/-- The process of processLines when its files have all been removed, with another stack. -/
def removedEnv : StackEnv :=
  { quietStackEnv (some (Vma.file processLines)) with
    uninit := { (default : Locals) with inode := 42, hasPermE := true }
    fileExist := fun _ => false
    load := { bareEnv [] with openBfd := fun _ _ => none } }

/-- -a and -s change nothing behind -n. -/
theorem stackIt_noParse_process_removed :
    stackIt removedEnv { noParse := true, agg := true, symbolPath := some ['/', 'x'] }
      { pid := 1, bts := [⟨7, ['t'], [0x7f0000001000, 0x400010], []⟩] } =
    stackIt (quietStackEnv (some (Vma.file processLines))) { noParse := true }
      { pid := 1, bts := [⟨7, ['t'], [0x7f0000001000, 0x400010], []⟩] } := by
  have same : SameProcess (quietStackEnv (some (Vma.file processLines))) removedEnv :=
    ⟨rfl, rfl, rfl, rfl⟩
  have mapFile : (quietStackEnv (some (Vma.file processLines))).mapFile =
    some (Vma.file processLines) := rfl
  exact stackIt_noParse_process processLines_ascending (Vma.readWhole_of_fits_all (by decide))
    mapFile 1 same rfl rfl _

section Groups

variable (env env' : StackEnv) {bts : List Bt}

/-- Groups of one size are of one stack. -/
def NoTies (bts : List Bt) : Prop :=
  ∀ s ∈ btMap bts, ∀ t ∈ btMap bts, s.2.tids.length = t.2.tids.length → s = t

theorem sortedBts_eq (untied : NoTies bts) : sortedBts env' bts = sortedBts env bts := by
  have order : (env'.btOrder.run (btMap bts)).Perm (env.btOrder.run (btMap bts)) :=
    (env'.btOrder.perm _).trans (env.btOrder.perm _).symm
  refine env'.sortBts.run_eq env.sortBts order ?_
  intro s hs t ht notBelow notAbove
  have below : ¬ s.2.tids.length > t.2.tids.length := of_decide_eq_false notBelow
  have above : ¬ t.2.tids.length > s.2.tids.length := of_decide_eq_false notAbove
  exact untied s ((env'.btOrder.perm _).subset hs) t ((env'.btOrder.perm _).subset ht) (by omega)

end Groups

section Parsed

variable {env env' : StackEnv} (conf : Config) (same : SameFiles env env') (c : BFDCache)
include same

theorem lineInfoFor_same : lineInfoFor env' conf = lineInfoFor env conf := by
  funext file offset
  simp only [lineInfoFor, same.expandBundle, same.binary]

theorem usable_same (file : Str) (offsets : List ULong) :
    Usable env' conf file offsets ↔ Usable env conf file offsets := by
  constructor
  · rintro ⟨there, reads⟩
    rw [same.fileExist] at there
    rw [same.expandBundle, same.binary] at reads
    exact ⟨there, reads⟩
  · rintro ⟨there, reads⟩
    rw [← same.fileExist] at there
    rw [← same.expandBundle, ← same.binary] at reads
    exact ⟨there, reads⟩

theorem filesUsable_same (addrs : List ULong) :
    FilesUsable env' conf c addrs ↔ FilesUsable env conf c addrs := by
  simp only [FilesUsable, usable_same conf same]

theorem located_same : located env' conf c = located env conf c := by
  have info (t : Placed) : locationFor env' conf t = locationFor env conf t := by
    funext loc
    simp only [locationFor, lineInfoFor_same conf same, same.cplusDemangle]
  funext addr
  simp only [located, info]

theorem reportText_same {bts : List Bt} (untied : conf.agg = true → NoTies bts) :
    reportText env' conf c bts = reportText env conf c bts := by
  cases agg : conf.agg with
  | true =>
    simp only [reportText, agg, if_true, same.tty, located_same conf same, reportGroups,
      sortedBts_eq env env' (untied agg)]
  | false => simp only [reportText, agg, Bool.false_eq_true, if_false, same.tty,
      located_same conf same]

end Parsed

/-- Neither the orders of the hash maps nor the choices of std::sort show in a report, unless two
symbols of a file share an address or, with -a, two groups have the same size. -/
theorem stackIt_deterministic {env env' : StackEnv} (same : SameFiles env env') (conf : Config)
    (parse : conf.noParse = false) (pid : Nat) (bts : List Bt) {vmas : List Vma}
    (asc : Vma.Ascending vmas) (whole : ∀ v ∈ vmas, v.ReadWhole)
    (mapFile : env.mapFile = some (Vma.file vmas))
    (plain : ∀ i file abfd, env.load.openBfd i file = some abfd → abfd.Unambiguous)
    (untied : conf.agg = true → NoTies bts) :
    (stackIt env' conf { pid, bts }).toOption = (stackIt env conf { pid, bts }).toOption := by
  have cache : loadedCache env' conf pid = loadedCache env conf pid := by
    rw [loadedCache, loadedCache, readMaps_same asc whole mapFile pid same.toSameProcess]
    exact loadMaps_sorts same.elf same.openBfd plain (readMaps_disjoint asc whole mapFile pid)
  have files := filesUsable_same conf same (loadedCache env conf pid) (bts.flatMap Bt.addrs)
  by_cases usable : FilesUsable env conf (loadedCache env conf pid) (bts.flatMap Bt.addrs)
  · rw [stackIt_usable env conf parse pid bts usable,
      stackIt_usable env' conf parse pid bts (by rwa [cache, files]), cache,
      reportText_same conf same _ untied]
  · obtain ⟨d, died, _⟩ := stackIt_unusable env conf parse pid bts usable
    obtain ⟨d', died', _⟩ := stackIt_unusable env' conf parse pid bts (by rwa [cache, files])
    rw [died, died']
    rfl

/-- Hash maps that iterate backwards. -/
def backwards (α : Type) : IterOrder α := ⟨List.reverse, fun xs => List.reverse_perm xs⟩

def backwardsEnv : StackEnv :=
  { quietStackEnv (some (Vma.file processLines)) with
    uninit := { (default : Locals) with inode := 42, hasPermE := true }
    addrOrder := backwards _
    fileOrder := backwards _
    btOrder := backwards _ }

theorem backwards_same : SameFiles (quietStackEnv (some (Vma.file processLines))) backwardsEnv :=
  ⟨⟨rfl, rfl, rfl, rfl⟩, rfl, rfl, rfl, rfl, rfl⟩

/-- Two threads in one stack and a third in another. -/
def threeThreads : List Bt :=
  [⟨7, ['s'], [0x7f0000001000, 0x400010], ['a']⟩, ⟨8, ['t'], [0x7f0000001010], ['b']⟩,
    ⟨9, ['u'], [0x7f0000001000, 0x400010], ['a']⟩]

theorem stackIt_deterministic_backwards :
    (stackIt backwardsEnv { agg := true } { pid := 1, bts := threeThreads }).toOption =
      (stackIt (quietStackEnv (some (Vma.file processLines))) { agg := true }
        { pid := 1, bts := threeThreads }).toOption :=
  stackIt_deterministic backwards_same { agg := true } rfl 1 threeThreads processLines_ascending
    (Vma.readWhole_of_fits_all (by decide)) rfl
    (by
      intro i file abfd opened
      obtain rfl := Option.some.inj opened
      intro s member
      cases member)
    (by
      intro _ s hs t ht size
      have groups : btMap threeThreads =
          [(['a'], ⟨[7, 9], [['s'], ['u']], [0x7f0000001000, 0x400010]⟩),
            (['b'], ⟨[8], [['t']], [0x7f0000001010]⟩)] := by decide
      simp only [groups, List.mem_cons, List.not_mem_nil, or_false] at hs ht
      rcases hs with rfl | rfl <;> rcases ht with rfl | rfl <;> first | rfl | cases size)

end Obstack
