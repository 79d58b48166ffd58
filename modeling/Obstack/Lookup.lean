import Obstack.Cache

/-! The pt_loads that load_maps leaves behind, and the two searches over them. A pt_load
is compared through its shape: everything but the symbol table. -/
namespace Obstack
open CText Sorted

/-- Range, flag and load address: what address translation depends on. -/
structure Shape where
  start : ULong
  end_ : ULong
  isExe : Bool
  loadVaddr : ULong
  deriving DecidableEq, Repr

def Shape.lo (s : Shape) : Nat := s.start.toNat
def Shape.hi (s : Shape) : Nat := s.end_.toNat

def PTLoad.shape (p : PTLoad) : Shape := ⟨p.addrStart, p.addrEnd, p.isExe, p.loadVaddr⟩
def PTLoad.lo (p : PTLoad) : Nat := p.addrStart.toNat
def PTLoad.hi (p : PTLoad) : Nat := p.addrEnd.toNat

def Map.lo (m : Map) : Nat := m.start.toNat
def Map.hi (m : Map) : Nat := m.end_.toNat

def Map.shape (elf : Str → ElfRead) (m : Map) : Shape :=
  ⟨m.start, m.end_, m.isExe, (checkShlib (elf m.path) 0).2⟩

theorem inRange_iff (addr : ULong) (p : PTLoad) :
    inRange addr p = true ↔ Covers PTLoad.lo PTLoad.hi addr.toNat p := by
  simp only [inRange, Covers, PTLoad.lo, PTLoad.hi, Bool.and_eq_true, decide_eq_true_eq, ge_iff_le,
    BitVec.le_def, BitVec.lt_def]

/-! ## One call and the loop -/

namespace BFDCache

section Create

variable (conf : Config) (sort : StdSort SymbolEnt.less) (elf : ElfRead)
  (openBfd : Str → Option Bfd) (c : BFDCache) (file : Str) (addrStart addrEnd : ULong)
  (isExe loadSyms : Bool)

/-- The path is known, or new without loading, or fails to open, or opens. -/
theorem createNewPtLoad_branches :
    let load (st : Option Nat) : PTLoad :=
      { addrStart, addrEnd, isExe, st, loadVaddr := (checkShlib elf 0).2 }
    let info := newInfo conf file (checkShlib elf 0).2
    let created := c.createNewPtLoad conf sort elf openBfd file addrStart addrEnd isExe loadSyms
    (∃ st, Assoc.find file c.stMap = some st ∧ created = c.pushPtLoad (load st)) ∨
    (Assoc.find file c.stMap = none ∧ loadSyms = false ∧
      created = { c with stMap := Assoc.insert file none c.stMap }.pushPtLoad (load none)) ∨
    (Assoc.find file c.stMap = none ∧ loadSyms = true ∧ openBfd info.file = none ∧
      created = (c, none)) ∨
    (Assoc.find file c.stMap = none ∧ loadSyms = true ∧ ∃ abfd, openBfd info.file = some abfd ∧
      created = { c with
        tables := c.tables ++ [loadSymbols sort abfd
          { textVma := 0, textSize := 0, symEnts := [], bfdInfo := { info with abfd := some abfd } }]
        stMap := Assoc.insert file (some c.tables.length) c.stMap }.pushPtLoad
          (load (some c.tables.length))) := by
  intro load info created
  simp only [created]
  unfold createNewPtLoad
  cases Assoc.find file c.stMap with
  | some st => exact Or.inl ⟨st, rfl, rfl⟩
  | none =>
    cases loadSyms with
    | false => exact Or.inr (Or.inl ⟨rfl, rfl, rfl⟩)
    | true =>
      cases opened : openBfd info.file with
      | none =>
        have failed : initInfo openBfd info = none := congrArg (Option.map _) opened
        refine Or.inr (Or.inr (Or.inl ⟨rfl, rfl, rfl, ?_⟩))
        simp only [info] at failed
        simp only [failed, if_true]
      | some abfd =>
        have built : initInfo openBfd info = some (abfd, { info with abfd := some abfd }) :=
          congrArg (Option.map _) opened
        refine Or.inr (Or.inr (Or.inr ⟨rfl, rfl, abfd, rfl, ?_⟩))
        simp only [info] at built
        simp only [built, if_true]
        rfl

/-- A call fails and changes nothing, or appends one pt_load of the given range and flag. -/
theorem createNewPtLoad_cases :
    (loadSyms = true ∧
      c.createNewPtLoad conf sort elf openBfd file addrStart addrEnd isExe loadSyms = (c, none)) ∨
    ∃ p c', c.createNewPtLoad conf sort elf openBfd file addrStart addrEnd isExe loadSyms =
        (c', some p) ∧ c'.ptLoads = c.ptLoads ++ [p] ∧ c'.locCache = c.locCache ∧
      p.shape = ⟨addrStart, addrEnd, isExe, (checkShlib elf 0).2⟩ := by
  obtain ⟨_, _, created⟩ | ⟨_, _, created⟩ | ⟨_, loading, _, failed⟩ | ⟨_, _, _, _, created⟩ :=
    createNewPtLoad_branches conf sort elf openBfd c file addrStart addrEnd isExe loadSyms
  · exact Or.inr ⟨_, _, created, rfl, rfl, rfl⟩
  · exact Or.inr ⟨_, _, created, rfl, rfl, rfl⟩
  · exact Or.inl ⟨loading, failed⟩
  · exact Or.inr ⟨_, _, created, rfl, rfl, rfl⟩

structure TablesLoaded (c : BFDCache) : Prop where
  stored : ∀ e ∈ c.stMap, ∃ st, e.2 = some st ∧ st < c.tables.length
  loads : ∀ p ∈ c.ptLoads, ∃ st, p.st = some st ∧ st < c.tables.length

theorem TablesLoaded.push {c : BFDCache} (loaded : c.TablesLoaded) {p : PTLoad}
    (table : ∃ st, p.st = some st ∧ st < c.tables.length) :
    (c.pushPtLoad p).1.TablesLoaded := by
  refine ⟨loaded.stored, fun q hq => ?_⟩
  rcases List.mem_append.mp hq with old | new
  · exact loaded.loads q old
  · obtain rfl := List.mem_singleton.mp new
    exact table

theorem TablesLoaded.exists_table {c : BFDCache} (loaded : c.TablesLoaded) {p : PTLoad}
    (member : p ∈ c.ptLoads) : ∃ st, c.table p = some st := by
  obtain ⟨i, st, bound⟩ := loaded.loads p member
  exact ⟨c.tables[i], by simp [table, st, bound]⟩

theorem TablesLoaded.grow {c : BFDCache} (loaded : c.TablesLoaded) (table : SymbolTable) :
    TablesLoaded { c with tables := c.tables ++ [table]
                          stMap := Assoc.insert file (some c.tables.length) c.stMap } := by
  have longer : (c.tables ++ [table]).length = c.tables.length + 1 := by simp
  constructor
  · intro e he
    rcases Assoc.mem_insert he with rfl | old
    · exact ⟨_, rfl, by rw [longer]; omega⟩
    · obtain ⟨st, eq, bound⟩ := loaded.stored e old
      exact ⟨st, eq, by rw [longer]; omega⟩
  · intro p hp
    obtain ⟨st, eq, bound⟩ := loaded.loads p hp
    exact ⟨st, eq, by rw [longer]; omega⟩

theorem createNewPtLoad_tables (loaded : c.TablesLoaded) :
    (c.createNewPtLoad conf sort elf openBfd file addrStart addrEnd isExe true).1.TablesLoaded := by
  obtain ⟨st, known, created⟩ | ⟨_, plain, _⟩ | ⟨_, _, _, failed⟩ | ⟨_, _, _, _, created⟩ :=
    createNewPtLoad_branches conf sort elf openBfd c file addrStart addrEnd isExe true
  · rw [created]
    exact loaded.push (loaded.stored _ (Assoc.find_mem known))
  · contradiction
  · rw [failed]
    exact loaded
  · rw [created]
    exact (loaded.grow file _).push ⟨_, rfl, by simp⟩

end Create

end BFDCache

section Loop

variable (env : LoadEnv) (conf : Config)

/-- One iteration: the map is skipped, which only parsing does, or leads to one pt_load. -/
theorem loadMapsLoop_cons (i : Nat) (m : Map) (maps : List Map) (c : BFDCache) :
    (conf.noParse = false ∧ loadMapsLoop env conf i (m :: maps) c =
      ((loadMapsLoop env conf (i + 1) maps c).1, none :: (loadMapsLoop env conf (i + 1) maps c).2)) ∨
    ∃ p c', loadMapsLoop env conf i (m :: maps) c =
        ((loadMapsLoop env conf (i + 1) maps c').1,
          some p :: (loadMapsLoop env conf (i + 1) maps c').2) ∧
      c'.ptLoads = c.ptLoads ++ [p] ∧ c'.locCache = c.locCache ∧ p.shape = m.shape env.elf := by
  rcases BFDCache.createNewPtLoad_cases conf env.sortSyms (env.elf m.path) (env.openBfd i) c
    m.path m.start m.end_ m.isExe (!conf.noParse) with
    ⟨parsing, failed⟩ | ⟨p, c', created, loads, same, shape⟩
  · refine Or.inl ⟨by simpa using parsing, ?_⟩
    simp only [loadMapsLoop, failed]
  · refine Or.inr ⟨p, c', ?_, loads, same, shape⟩
    simp only [loadMapsLoop, created]

theorem loadMapsLoop_ptLoads (i : Nat) (maps : List Map) (c : BFDCache) :
    (loadMapsLoop env conf i maps c).1.ptLoads =
      c.ptLoads ++ (loadMapsLoop env conf i maps c).2.filterMap id := by
  induction maps generalizing i c with
  | nil => simp [loadMapsLoop]
  | cons m maps ih =>
    rcases loadMapsLoop_cons env conf i m maps c with ⟨_, skipped⟩ | ⟨p, c', created, loads, _, _⟩
    · simp only [skipped, ih, List.filterMap_cons, id]
    · simp only [created, ih, loads, List.filterMap_cons, id, List.append_assoc,
        List.singleton_append]

theorem loadMapsLoop_shapes (i : Nat) (maps : List Map) (c : BFDCache) :
    List.Forall₂ (fun m o => ∀ p ∈ o, p.shape = m.shape env.elf) maps
      (loadMapsLoop env conf i maps c).2 := by
  induction maps generalizing i c with
  | nil => exact List.Forall₂.nil
  | cons m maps ih =>
    rcases loadMapsLoop_cons env conf i m maps c with ⟨_, skipped⟩ | ⟨p, c', created, _, _, shape⟩
    · rw [skipped]
      exact List.Forall₂.cons (by simp) (ih _ _)
    · rw [created]
      refine List.Forall₂.cons ?_ (ih _ _)
      rintro q ⟨⟩
      exact shape

theorem loadMapsLoop_noParse (noParse : conf.noParse = true) (i : Nat) (maps : List Map)
    (c : BFDCache) : ∀ o ∈ (loadMapsLoop env conf i maps c).2, o.isSome = true := by
  induction maps generalizing i c with
  | nil => simp [loadMapsLoop]
  | cons m maps ih =>
    rcases loadMapsLoop_cons env conf i m maps c with ⟨parsing, _⟩ | ⟨p, c', created, _, _, _⟩
    · simp [noParse] at parsing
    · rw [created, List.forall_mem_cons]
      exact ⟨rfl, ih _ _⟩

theorem loadMapsLoop_locCache (i : Nat) (maps : List Map) (c : BFDCache) :
    (loadMapsLoop env conf i maps c).1.locCache = c.locCache := by
  induction maps generalizing i c with
  | nil => rfl
  | cons m maps ih =>
    rcases loadMapsLoop_cons env conf i m maps c with ⟨_, skipped⟩ | ⟨p, c', created, _, same, _⟩
    · simp only [skipped, ih]
    · simp only [created, ih, same]

theorem loadMapsLoop_tables (parsing : conf.noParse = false) (i : Nat) (maps : List Map)
    (c : BFDCache) (loaded : c.TablesLoaded) : (loadMapsLoop env conf i maps c).1.TablesLoaded := by
  induction maps generalizing i c with
  | nil => exact loaded
  | cons m maps ih =>
    rw [loadMapsLoop, parsing]
    exact ih _ _ (BFDCache.createNewPtLoad_tables conf _ _ _ c _ _ _ _ loaded)

theorem shapes_sublist {elf : Str → ElfRead} {maps : List Map} {created : List (Option PTLoad)}
    (shapes : List.Forall₂ (fun m o => ∀ p ∈ o, p.shape = m.shape elf) maps created) :
    ((created.filterMap id).map PTLoad.shape).Sublist (maps.map (Map.shape elf)) := by
  induction shapes with
  | nil => exact List.Sublist.refl _
  | @cons m o maps created shape _ ih =>
    cases o with
    | none => exact ih.cons _
    | some p =>
      change (p.shape :: (created.filterMap id).map PTLoad.shape).Sublist
        (m.shape elf :: maps.map (Map.shape elf))
      rw [shape p rfl]
      exact ih.cons_cons _

end Loop

/-! ## Ranges -/

theorem disjoint_shapes {ps : List PTLoad} :
    Disjoint PTLoad.lo PTLoad.hi ps ↔ Disjoint Shape.lo Shape.hi (ps.map PTLoad.shape) :=
  (show Disjoint Shape.lo Shape.hi (ps.map PTLoad.shape) ↔ _ from disjoint_map).symm

theorem disjoint_maps {elf : Str → ElfRead} {maps : List Map} :
    Disjoint Map.lo Map.hi maps ↔ Disjoint Shape.lo Shape.hi (maps.map (Map.shape elf)) :=
  (show Disjoint Shape.lo Shape.hi (maps.map (Map.shape elf)) ↔ _ from disjoint_map).symm

theorem shapes_all {elf : Str → ElfRead} {maps : List Map} {created : List (Option PTLoad)}
    (shapes : List.Forall₂ (fun m o => ∀ p ∈ o, p.shape = m.shape elf) maps created)
    (all : ∀ o ∈ created, o.isSome = true) :
    (created.filterMap id).map PTLoad.shape = maps.map (Map.shape elf) := by
  induction shapes with
  | nil => rfl
  | @cons m o maps created shape _ ih =>
    obtain ⟨p, rfl⟩ := Option.isSome_iff_exists.mp (all o (by simp))
    change p.shape :: (created.filterMap id).map PTLoad.shape =
      m.shape elf :: maps.map (Map.shape elf)
    rw [shape p rfl, ih (fun o ho => all o (by simp [ho]))]

section LoadMaps

variable (env : LoadEnv) (conf : Config) {maps : List Map}

def createdLoads (maps : List Map) : List PTLoad := (loadMapsLoop env conf 0 maps {}).2.filterMap id

theorem loadMaps_ptLoads : (loadMaps env conf maps).ptLoads =
    env.sortLoads.run (createdLoads env conf maps) := by
  rw [loadMaps, BFDCache.sortPtLoad, createdLoads, loadMapsLoop_ptLoads, List.nil_append]

theorem createdLoads_disjoint (disjoint : Disjoint Map.lo Map.hi maps) :
    Disjoint PTLoad.lo PTLoad.hi (createdLoads env conf maps) :=
  disjoint_shapes.mpr ((disjoint_maps.mp disjoint).sublist
    (shapes_sublist (loadMapsLoop_shapes env conf 0 maps {})))

theorem sorted_ascending (sort : StdSort PTLoad.less) {pushed : List PTLoad}
    (disjoint : Disjoint PTLoad.lo PTLoad.hi pushed) :
    Ascending PTLoad.lo PTLoad.hi (sort.run pushed) := by
  apply (disjoint.perm (sort.perm pushed)).ascending
  refine (sort.ordered pushed).imp ?_
  intro p q order
  have notLess : ¬ q.addrStart < p.addrStart := of_decide_eq_false order
  exact Nat.le_of_not_lt notLess

theorem loadMaps_ascending (disjoint : Disjoint Map.lo Map.hi maps) :
    Ascending PTLoad.lo PTLoad.hi (loadMaps env conf maps).ptLoads := by
  rw [loadMaps_ptLoads]
  exact sorted_ascending _ (createdLoads_disjoint env conf disjoint)

theorem loadMaps_shape {p : PTLoad} (member : p ∈ (loadMaps env conf maps).ptLoads) :
    p.shape ∈ maps.map (Map.shape env.elf) := by
  rw [loadMaps_ptLoads] at member
  have created := (env.sortLoads.perm _).subset member
  exact (shapes_sublist (loadMapsLoop_shapes env conf 0 maps {})).subset (List.mem_map_of_mem created)

theorem loadMaps_noParse (noParse : conf.noParse = true) {s : Shape}
    (member : s ∈ maps.map (Map.shape env.elf)) :
    ∃ p ∈ (loadMaps env conf maps).ptLoads, p.shape = s := by
  rw [← shapes_all (loadMapsLoop_shapes env conf 0 maps {})
    (loadMapsLoop_noParse env conf noParse 0 maps {})] at member
  obtain ⟨p, created, shape⟩ := List.mem_map.mp member
  rw [loadMaps_ptLoads]
  exact ⟨p, (env.sortLoads.perm _).symm.subset created, shape⟩

theorem loadMaps_locCache : (loadMaps env conf maps).locCache = [] :=
  loadMapsLoop_locCache env conf 0 maps {}

theorem loadMaps_tables (parsing : conf.noParse = false) :
    (loadMaps env conf maps).TablesLoaded := by
  have loaded := loadMapsLoop_tables env conf parsing 0 maps {} ⟨by simp, by simp⟩
  exact ⟨loaded.stored, fun p hp => loaded.loads p ((env.sortLoads.perm _).subset hp)⟩

end LoadMaps

/-! ## The two searches -/

namespace BFDCache

variable (c : BFDCache) (addr : ULong)

theorem findPtLoad_eq : c.findPtLoad addr = firstEndingAfter PTLoad.hi addr.toNat c.ptLoads := rfl

theorem searchPtLoad_eq :
    c.searchPtLoad addr = (lastStartingBy PTLoad.lo addr.toNat c.ptLoads).filter (inRange addr) := by
  have starts : (fun l : PTLoad => decide (addr < l.addrStart)) =
      fun l => decide (addr.toNat < PTLoad.lo l) := rfl
  simp only [searchPtLoad, lastStartingBy, starts]
  cases upperBound (fun l => decide (addr.toNat < PTLoad.lo l)) c.ptLoads with
  | zero => simp
  | succ i =>
    simp only [ne_eq, Nat.add_eq_zero_iff, one_ne_zero, and_false, not_false_eq_true, if_true,
      if_false, Nat.add_sub_cancel]
    cases c.ptLoads[i]? with
    | none => rfl
    | some p => rfl

variable {c addr}

theorem findPtLoad_mem {p : PTLoad} (found : c.findPtLoad addr = some p) : p ∈ c.ptLoads :=
  firstEndingAfter_mem (findPtLoad_eq c addr ▸ found)

theorem searchPtLoad_inRange {p : PTLoad} (found : c.searchPtLoad addr = some p) :
    p ∈ c.ptLoads ∧ inRange addr p = true := by
  rw [searchPtLoad_eq, Option.filter_eq_some_iff] at found
  exact ⟨lastStartingBy_mem found.1, found.2⟩

theorem findPtLoad_covered (asc : Ascending PTLoad.lo PTLoad.hi c.ptLoads) {p : PTLoad}
    (member : p ∈ c.ptLoads) (inside : inRange addr p = true) : c.findPtLoad addr = some p :=
  asc.firstEndingAfter_covered member ((inRange_iff addr p).mp inside)

theorem searchPtLoad_covered (asc : Ascending PTLoad.lo PTLoad.hi c.ptLoads) {p : PTLoad}
    (member : p ∈ c.ptLoads) (inside : inRange addr p = true) : c.searchPtLoad addr = some p := by
  rw [searchPtLoad_eq, asc.lastStartingBy_covered member ((inRange_iff addr p).mp inside)]
  simp [inside]

def symbolOf (st : SymbolTable) (p : PTLoad) (addr : ULong) : Location where
  file := st.bfdInfo.file
  function := traceBfdAddr st (addr2offset p addr) unknown
  filename := unknown
  line := 0

def reported (c : BFDCache) (addr : ULong) : Option Location :=
  match c.searchPtLoad addr with
  | some p => (c.table p).map (fun st => symbolOf st p addr)
  | none => some { file := unknown, function := unknown, filename := unknown, line := 0 }

theorem reported_covered (asc : Ascending PTLoad.lo PTLoad.hi c.ptLoads) {p : PTLoad}
    (member : p ∈ c.ptLoads) (inside : inRange addr p = true) {st : SymbolTable}
    (table : c.table p = some st) : c.reported addr = some (symbolOf st p addr) := by
  simp only [reported, searchPtLoad_covered asc member inside, table, Option.map_some]

theorem reported_isSome (tables : ∀ p ∈ c.ptLoads, ∃ st, c.table p = some st) (addr : ULong) :
    ∃ loc, c.reported addr = some loc := by
  unfold reported
  cases found : c.searchPtLoad addr with
  | none => exact ⟨_, rfl⟩
  | some p =>
    obtain ⟨st, table⟩ := tables p (searchPtLoad_inRange found).1
    exact ⟨symbolOf st p addr, by simp [table]⟩

theorem TablesLoaded.reported_isSome (loaded : c.TablesLoaded) (addr : ULong) :
    ∃ loc, c.reported addr = some loc :=
  BFDCache.reported_isSome (fun _ => loaded.exists_table) addr

theorem reported_congr {c c' : BFDCache} (loads : c'.ptLoads = c.ptLoads)
    (tables : c'.tables = c.tables) (addr : ULong) : c'.reported addr = c.reported addr := by
  simp only [reported, searchPtLoad, table, loads, tables]

/-- The three branches: a hit, a range that is then cached, and no range at all. -/
theorem doAddr2symbol_eq (c : BFDCache) (addr : ULong) : c.doAddr2symbol addr =
    match Assoc.find addr c.locCache with
    | some loc => some ({ c with total := c.total + 1, hit := c.hit + 1 }, loc)
    | none =>
      match c.searchPtLoad addr with
      | some p => (c.table p).map fun st =>
          ({ c with total := c.total + 1
                    locCache := Assoc.insert addr (symbolOf st p addr) c.locCache },
            symbolOf st p addr)
      | none => some ({ c with total := c.total + 1, lack := c.lack + 1 },
          { file := unknown, function := unknown, filename := unknown, line := 0 }) := rfl

/-- Besides counters, only the entry of addr may be added. -/
theorem doAddr2symbol_fresh (fresh : Assoc.find addr c.locCache = none) {loc : Location}
    (answer : c.reported addr = some loc) :
    ∃ c', c.doAddr2symbol addr = some (c', loc) ∧ c'.ptLoads = c.ptLoads ∧ c'.tables = c.tables ∧
      ∀ k ∈ c'.locCache.map Prod.fst, k = addr ∨ k ∈ c.locCache.map Prod.fst := by
  rw [reported] at answer
  rw [doAddr2symbol_eq, fresh]
  cases found : c.searchPtLoad addr with
  | none =>
    rw [found] at answer
    obtain rfl := Option.some.inj answer
    exact ⟨_, rfl, rfl, rfl, fun k hk => Or.inr hk⟩
  | some p =>
    simp only [found] at answer
    obtain ⟨st, table, rfl⟩ := Option.map_eq_some_iff.mp answer
    simp only [table, Option.map_some]
    exact ⟨_, rfl, rfl, rfl, fun k hk => Assoc.mem_insert_keys.mp hk⟩

variable (c addr)

end BFDCache

open BFDCache

/-- Files with the given program headers that all open and have no symbol. -/
def bareEnv (phdrs : List Phdr) : LoadEnv where
  elf _ := .headers phdrs
  openBfd _ _ := some { shTypes := some [shtSymtab], text := none, regular := some [], dynamic := none }
  sortSyms := StdSort.byKey (fun s => s.addr.toNat) _ (fun _ _ => by exact decide_eq_true_iff)
  sortLoads := StdSort.byKey PTLoad.lo _ (fun _ _ => by exact decide_eq_true_iff)

def libraryMap : Map := { path := ['/', 'l'], start := 0x1000, end_ := 0x2000, isExe := false }

def gapMaps : List Map :=
  [libraryMap, { path := ['/', 'm'], start := 0x6000, end_ := 0x7000, isExe := false }]

end Obstack
