import Obstack.SymbolSearch
import Obstack.Symbolize

/-! The store behind create_new_pt_load over any sequence of calls: which calls fail, what
they leave behind, and that each path has one symbol table, built once and never null where
symbols are loaded. -/
namespace Obstack
open CText Sorted

/-- The arguments of a call, with what check_shlib and open_bfd meet during it. -/
structure CreateCall where
  file : Str
  addrStart : ULong
  addrEnd : ULong
  isExe : Bool
  elf : ElfRead
  openBfd : Str → Option Bfd

namespace CreateCall

def loadVaddr (call : CreateCall) : ULong := (checkShlib call.elf 0).2

def info (conf : Config) (call : CreateCall) : BFDInfo := BFDCache.newInfo conf call.file call.loadVaddr

def Opens (conf : Config) (call : CreateCall) : Prop :=
  (call.openBfd (call.info conf).file).isSome = true

def load (call : CreateCall) (st : Option Nat) : PTLoad :=
  { addrStart := call.addrStart, addrEnd := call.addrEnd, isExe := call.isExe, st,
    loadVaddr := call.loadVaddr }

def table (conf : Config) (sort : StdSort SymbolEnt.less) (call : CreateCall) (abfd : Bfd) :
    SymbolTable :=
  loadSymbols sort abfd (newTable { call.info conf with abfd := some abfd })

end CreateCall

theorem loadSymbols_bfdInfo (sort : StdSort SymbolEnt.less) (abfd : Bfd) (st : SymbolTable) :
    (loadSymbols sort abfd st).bfdInfo = st.bfdInfo := by
  unfold loadSymbols
  cases checkStripped abfd.shTypes with
  | true => rfl
  | false => cases abfd.text <;> rfl

section Calls

variable (conf : Config) (sort : StdSort SymbolEnt.less) (loadSyms : Bool)

namespace BFDCache

def create (c : BFDCache) (call : CreateCall) : BFDCache × Option PTLoad :=
  c.createNewPtLoad conf sort call.elf call.openBfd call.file call.addrStart call.addrEnd
    call.isExe loadSyms

/-- A sequence of calls, with what each returns. -/
def createAll (c : BFDCache) : List CreateCall → BFDCache × List (Option PTLoad)
  | [] => (c, [])
  | call :: calls =>
    let step := c.create conf sort loadSyms call
    let rest := createAll step.1 calls
    (rest.1, step.2 :: rest.2)

theorem create_cases (c : BFDCache) (call : CreateCall) :
    (∃ st, Assoc.find call.file c.stMap = some st ∧
      c.create conf sort loadSyms call = c.pushPtLoad (call.load st)) ∨
    (Assoc.find call.file c.stMap = none ∧ loadSyms = false ∧
      c.create conf sort loadSyms call =
        { c with stMap := Assoc.insert call.file none c.stMap }.pushPtLoad (call.load none)) ∨
    (Assoc.find call.file c.stMap = none ∧ loadSyms = true ∧ ¬ call.Opens conf ∧
      c.create conf sort loadSyms call = (c, none)) ∨
    (Assoc.find call.file c.stMap = none ∧ loadSyms = true ∧ call.Opens conf ∧
      ∃ abfd, c.create conf sort loadSyms call =
        { c with tables := c.tables ++ [call.table conf sort abfd]
                 stMap := Assoc.insert call.file (some c.tables.length) c.stMap }.pushPtLoad
          (call.load (some c.tables.length))) := by
  rcases createNewPtLoad_branches conf sort call.elf call.openBfd c call.file call.addrStart
    call.addrEnd call.isExe loadSyms with ⟨st, found, created⟩ | ⟨absent, plain, created⟩ |
    ⟨absent, loading, closed, failed⟩ | ⟨absent, loading, abfd, opened, created⟩
  · exact Or.inl ⟨st, found, created⟩
  · exact Or.inr (Or.inl ⟨absent, plain, created⟩)
  · have unopened : ¬ call.Opens conf := by
      intro opens
      have isSome : (call.openBfd (call.info conf).file).isSome = false :=
        congrArg Option.isSome closed
      exact Bool.noConfusion (isSome.symm.trans opens)
    exact Or.inr (Or.inr (Or.inl ⟨absent, loading, unopened, failed⟩))
  · have opens : call.Opens conf := congrArg Option.isSome opened
    exact Or.inr (Or.inr (Or.inr ⟨absent, loading, opens, abfd, created⟩))

/-- What a history of calls, with what they returned, has made of the store. -/
structure Store (done : List (CreateCall × Option PTLoad)) (c : BFDCache) : Prop where
  keys : (c.stMap.map Prod.fst).Nodup
  known : ∀ file, file ∈ c.stMap.map Prod.fst ↔
    ∃ d ∈ done, d.1.file = file ∧ (loadSyms = true → d.1.Opens conf)
  loads : c.ptLoads = done.filterMap Prod.snd
  created : ∀ d ∈ done, ∀ p ∈ d.2, ∃ st, Assoc.find d.1.file c.stMap = some st ∧ p = d.1.load st
  built : c.stMap.map Prod.snd = if loadSyms = true then (List.range c.tables.length).map some
    else List.replicate c.stMap.length none
  infos : ∀ e ∈ c.stMap, ∀ i, e.2 = some i → ∃ st, c.tables[i]? = some st ∧
    ∃ d ∈ done, d.1.file = e.1 ∧ ∃ abfd, st.bfdInfo = { d.1.info conf with abfd := some abfd }

namespace Store

variable {conf loadSyms} {done : List (CreateCall × Option PTLoad)} {c : BFDCache}

theorem start : Store conf loadSyms [] {} where
  keys := List.nodup_nil
  known := by simp
  loads := rfl
  created := by intro d hd; cases hd
  built := by cases loadSyms <;> rfl
  infos := by intro e he; cases he

theorem push (store : Store conf loadSyms done c) {call : CreateCall} {st : Option Nat}
    (found : Assoc.find call.file c.stMap = some st) :
    Store conf loadSyms (done ++ [(call, some (call.load st))]) (c.pushPtLoad (call.load st)).1 where
  keys := store.keys
  known := by
    intro file
    have present : call.file ∈ c.stMap.map Prod.fst := List.mem_map_of_mem (Assoc.find_mem found)
    change file ∈ c.stMap.map Prod.fst ↔ _
    rw [store.known]
    constructor
    · rintro ⟨d, hd, named⟩
      exact ⟨d, by simp [hd], named⟩
    · rintro ⟨d, hd, rfl, opens⟩
      rcases List.mem_append.mp hd with old | new
      · exact ⟨d, old, rfl, opens⟩
      · rw [List.mem_singleton.mp new]
        exact (store.known _).mp present
  loads := by simp [pushPtLoad, store.loads]
  created := by
    intro d hd p hp
    rcases List.mem_append.mp hd with old | new
    · exact store.created d old p hp
    · obtain rfl := List.mem_singleton.mp new
      exact ⟨st, found, (Option.some.inj hp).symm⟩
  built := store.built
  infos := by
    intro e he i stored
    obtain ⟨st, table, d, hd, named⟩ := store.infos e he i stored
    exact ⟨st, table, d, by simp [hd], named⟩

theorem grow (store : Store conf loadSyms done c) {call : CreateCall}
    (absent : Assoc.find call.file c.stMap = none) (opens : loadSyms = true → call.Opens conf)
    {tables : List SymbolTable} {st : Option Nat}
    (kept : ∀ (i : Nat) (t : SymbolTable), c.tables[i]? = some t → tables[i]? = some t)
    (built : c.stMap.map Prod.snd ++ [st] = if loadSyms = true then
      (List.range tables.length).map some else List.replicate (c.stMap.length + 1) none)
    (info : ∀ i, st = some i → ∃ t, tables[i]? = some t ∧
      ∃ abfd, t.bfdInfo = { call.info conf with abfd := some abfd }) :
    Store conf loadSyms (done ++ [(call, some (call.load st))])
      ({ c with tables, stMap := Assoc.insert call.file st c.stMap }.pushPtLoad (call.load st)).1 where
  keys := Assoc.nodup_insert store.keys
  known := by
    intro file
    change file ∈ (Assoc.insert call.file st c.stMap).map Prod.fst ↔ _
    rw [Assoc.mem_insert_keys, store.known]
    constructor
    · rintro (rfl | ⟨d, hd, named⟩)
      · exact ⟨(call, some (call.load st)), by simp, rfl, opens⟩
      · exact ⟨d, by simp [hd], named⟩
    · rintro ⟨d, hd, rfl, named⟩
      rcases List.mem_append.mp hd with old | new
      · exact Or.inr ⟨d, old, rfl, named⟩
      · rw [List.mem_singleton.mp new]
        exact Or.inl rfl
  loads := by simp [pushPtLoad, store.loads]
  created := by
    intro d hd p hp
    rcases List.mem_append.mp hd with old | new
    · obtain ⟨st', found, shape⟩ := store.created d old p hp
      exact ⟨st', Assoc.find_insert_kept st found, shape⟩
    · obtain rfl := List.mem_singleton.mp new
      exact ⟨st, Assoc.find_insert_new st absent, (Option.some.inj hp).symm⟩
  built := by
    change (Assoc.insert call.file st c.stMap).map Prod.snd = if loadSyms = true then
      (List.range tables.length).map some
      else List.replicate (Assoc.insert call.file st c.stMap).length none
    rw [Assoc.insert_absent st (Assoc.find_eq_none.mp absent), List.map_append, List.length_append]
    exact built
  infos := by
    intro e he i stored
    rcases Assoc.mem_insert he with rfl | old
    · obtain ⟨t, table, abfd, same⟩ := info i stored
      exact ⟨t, table, (call, some (call.load st)), by simp, rfl, abfd, same⟩
    · obtain ⟨t, table, d, hd, named⟩ := store.infos e old i stored
      exact ⟨t, kept i t table, d, by simp [hd], named⟩

theorem fail (store : Store conf loadSyms done c) {call : CreateCall} (loading : loadSyms = true)
    (closed : ¬ call.Opens conf) : Store conf loadSyms (done ++ [(call, none)]) c where
  keys := store.keys
  known := by
    intro file
    rw [store.known]
    constructor
    · rintro ⟨d, hd, named⟩
      exact ⟨d, by simp [hd], named⟩
    · rintro ⟨d, hd, rfl, opens⟩
      rcases List.mem_append.mp hd with old | new
      · exact ⟨d, old, rfl, opens⟩
      · rw [List.mem_singleton.mp new] at opens
        exact absurd (opens loading) closed
  loads := by simp [store.loads]
  created := by
    intro d hd p hp
    rcases List.mem_append.mp hd with old | new
    · exact store.created d old p hp
    · rw [List.mem_singleton.mp new] at hp
      cases hp
  built := store.built
  infos := by
    intro e he i stored
    obtain ⟨st, table, d, hd, named⟩ := store.infos e he i stored
    exact ⟨st, table, d, by simp [hd], named⟩

theorem step (store : Store conf loadSyms done c) (call : CreateCall) :
    Store conf loadSyms (done ++ [(call, (c.create conf sort loadSyms call).2)])
      (c.create conf sort loadSyms call).1 := by
  rcases create_cases conf sort loadSyms c call with ⟨st, found, created⟩ |
    ⟨absent, plain, created⟩ | ⟨_, loading, closed, failed⟩ | ⟨absent, loading, opens, abfd, created⟩
  · rw [created]
    exact store.push found
  · rw [created]
    refine store.grow absent (by simp [plain]) (fun _ _ table => table) ?_ (by simp)
    rw [store.built]
    simp [plain, List.replicate_succ']
  · rw [failed]
    exact store.fail loading closed
  · rw [created]
    refine store.grow absent (fun _ => opens) ?_ ?_ ?_
    · intro i t table
      obtain ⟨inside, _⟩ := List.getElem?_eq_some_iff.mp table
      rw [List.getElem?_append_left inside]
      exact table
    · rw [store.built]
      simp [loading, List.range_succ]
    · intro i last
      obtain rfl := Option.some.inj last
      refine ⟨call.table conf sort abfd, by simp, abfd, ?_⟩
      exact loadSymbols_bfdInfo sort abfd _

theorem run (store : Store conf loadSyms done c) (calls : List CreateCall) :
    Store conf loadSyms (done ++ calls.zip (c.createAll conf sort loadSyms calls).2)
      (c.createAll conf sort loadSyms calls).1 := by
  induction calls generalizing done c with
  | nil => simpa [createAll] using store
  | cons call calls ih =>
    have rest := ih (store.step sort call)
    rwa [List.append_assoc] at rest

theorem loaded (store : Store conf loadSyms done c) (loading : loadSyms = true) : c.TablesLoaded := by
  have stored : ∀ e ∈ c.stMap, ∃ st, e.2 = some st ∧ st < c.tables.length := by
    intro e he
    have value : e.2 ∈ c.stMap.map Prod.snd := List.mem_map_of_mem he
    rw [store.built, if_pos loading, List.mem_map] at value
    obtain ⟨st, inside, same⟩ := value
    exact ⟨st, same.symm, List.mem_range.mp inside⟩
  refine ⟨stored, fun p hp => ?_⟩
  rw [store.loads] at hp
  obtain ⟨d, hd, returned⟩ := List.mem_filterMap.mp hp
  obtain ⟨st, found, rfl⟩ := store.created d hd p returned
  exact stored _ (Assoc.find_mem found)

theorem nonNull (store : Store conf loadSyms done c) (loading : loadSyms = true) {p : PTLoad}
    (member : p ∈ c.ptLoads) :
    ∃ st, c.table p = some st ∧ st.bfdInfo.abfd.isSome = true := by
  obtain ⟨i, named, _⟩ := (store.loaded loading).loads p member
  rw [store.loads] at member
  obtain ⟨d, hd, returned⟩ := List.mem_filterMap.mp member
  obtain ⟨st, found, rfl⟩ := store.created d hd p returned
  obtain ⟨t, table, _, _, _, abfd, info⟩ := store.infos _ (Assoc.find_mem found) i named
  refine ⟨t, ?_, by simp [info]⟩
  change st.bind _ = some t
  rw [show st = some i from named]
  exact table

theorem null (store : Store conf loadSyms done c) (plain : loadSyms = false) {p : PTLoad}
    (member : p ∈ c.ptLoads) : p.st = none := by
  rw [store.loads] at member
  obtain ⟨d, hd, returned⟩ := List.mem_filterMap.mp member
  obtain ⟨st, found, rfl⟩ := store.created d hd p returned
  have value : st ∈ c.stMap.map Prod.snd := List.mem_map_of_mem (Assoc.find_mem found)
  rw [store.built, plain] at value
  exact List.eq_of_mem_replicate value

end Store

theorem createAll_store (calls : List CreateCall) :
    Store conf loadSyms (calls.zip (createAll conf sort loadSyms {} calls).2)
      (createAll conf sort loadSyms {} calls).1 :=
  Store.start.run sort calls

theorem createAll_length (c : BFDCache) (calls : List CreateCall) :
    (c.createAll conf sort loadSyms calls).2.length = calls.length := by
  induction calls generalizing c with
  | nil => rfl
  | cons call calls ih => exact congrArg Nat.succ (ih _)

/-- One call on a store: it fails and changes nothing, or appends one pt_load. -/
structure CallEffect (c : BFDCache) (call : CreateCall) : Prop where
  fails : (c.create conf sort loadSyms call).2 = none ↔
    loadSyms = true ∧ call.file ∉ c.stMap.map Prod.fst ∧ ¬ call.Opens conf
  failed : (c.create conf sort loadSyms call).2 = none → (c.create conf sort loadSyms call).1 = c
  appends : ∀ p, (c.create conf sort loadSyms call).2 = some p →
    (c.create conf sort loadSyms call).1.ptLoads = c.ptLoads ++ [p] ∧
      p.addrStart = call.addrStart ∧ p.addrEnd = call.addrEnd ∧ p.isExe = call.isExe
  kept : ∀ file st, Assoc.find file c.stMap = some st →
    Assoc.find file (c.create conf sort loadSyms call).1.stMap = some st
  tables : c.tables <+: (c.create conf sort loadSyms call).1.tables

variable {conf sort loadSyms} in
theorem CallEffect.success {c c' : BFDCache} {call : CreateCall} {st : Option Nat}
    (created : c.create conf sort loadSyms call = c'.pushPtLoad (call.load st))
    (loads : c'.ptLoads = c.ptLoads)
    (allowed : ¬ (loadSyms = true ∧ call.file ∉ c.stMap.map Prod.fst ∧ ¬ call.Opens conf))
    (kept : ∀ file st, Assoc.find file c.stMap = some st → Assoc.find file c'.stMap = some st)
    (tables : c.tables <+: c'.tables) : CallEffect conf sort loadSyms c call := by
  have answer : (c.create conf sort loadSyms call).2 = some (call.load st) :=
    congrArg Prod.snd created
  have after : (c.create conf sort loadSyms call).1 = (c'.pushPtLoad (call.load st)).1 :=
    congrArg Prod.fst created
  constructor
  case fails =>
    constructor
    · intro failed
      cases answer.symm.trans failed
    · intro new
      exact absurd new allowed
  case failed => simp [answer]
  case appends =>
    intro p same
    obtain rfl := Option.some.inj (answer.symm.trans same)
    exact ⟨by simp [after, pushPtLoad, loads], rfl, rfl, rfl⟩
  case kept =>
    rw [after]
    exact kept
  case tables =>
    rw [after]
    exact tables

theorem create_effect (c : BFDCache) (call : CreateCall) : CallEffect conf sort loadSyms c call := by
  rcases create_cases conf sort loadSyms c call with ⟨st, found, created⟩ |
    ⟨absent, plain, created⟩ | ⟨absent, loading, closed, failed⟩ |
    ⟨absent, loading, opens, abfd, created⟩
  · have present : call.file ∈ c.stMap.map Prod.fst := List.mem_map_of_mem (Assoc.find_mem found)
    exact CallEffect.success created rfl (fun new => new.2.1 present) (fun _ _ known => known)
      List.prefix_rfl
  · refine CallEffect.success created rfl ?_ (fun _ _ known => Assoc.find_insert_kept _ known)
      List.prefix_rfl
    simp [plain]
  · constructor
    case fails =>
      constructor
      · exact fun _ => ⟨loading, Assoc.find_eq_none.mp absent, closed⟩
      · exact fun _ => congrArg Prod.snd failed
    case failed => simp [failed]
    case appends => simp [failed]
    case kept => simp [failed]
    case tables => simp [failed]
  · exact CallEffect.success created rfl (fun new => new.2.2 opens)
      (fun _ _ known => Assoc.find_insert_kept _ known) (List.prefix_append _ _)

/-- The store that a sequence of calls leaves behind: what the next call can do to it, and
that its pointers are null in one mode and never in the other. -/
structure Consistent (calls : List CreateCall) (c : BFDCache) (results : List (Option PTLoad)) :
    Prop where
  answered : results.length = calls.length
  next : ∀ call, CallEffect conf sort loadSyms c call
  pushed : c.ptLoads = results.filterMap id
  shared : ∀ d ∈ calls.zip results, ∀ p ∈ d.2, Assoc.find d.1.file c.stMap = some p.st
  keys : (c.stMap.map Prod.fst).Nodup
  once : c.stMap.map Prod.snd = if loadSyms = true then (List.range c.tables.length).map some
    else List.replicate c.stMap.length none
  nonNull : loadSyms = true → ∀ p ∈ c.ptLoads, ∃ st, c.table p = some st ∧
    st.bfdInfo.abfd.isSome = true
  null : loadSyms = false → ∀ p ∈ c.ptLoads, p.st = none

theorem createAll_consistent (calls : List CreateCall) :
    Consistent conf sort loadSyms calls (createAll conf sort loadSyms {} calls).1
      (createAll conf sort loadSyms {} calls).2 := by
  have length := createAll_length conf sort loadSyms {} calls
  have store := createAll_store conf sort loadSyms calls
  constructor
  case answered => exact length
  case next => exact create_effect conf sort loadSyms _
  case pushed =>
    have results : (calls.zip (createAll conf sort loadSyms {} calls).2).map Prod.snd = _ :=
      List.map_snd_zip (Nat.le_of_eq length)
    rw [store.loads, ← congrArg (List.filterMap id) results, List.filterMap_map]
    rfl
  case shared =>
    intro d hd p hp
    obtain ⟨st, found, rfl⟩ := store.created d hd p hp
    exact found
  case keys => exact store.keys
  case once => exact store.built
  case nonNull => exact fun loading p hp => store.nonNull loading hp
  case null => exact fun plain p hp => store.null plain hp

end BFDCache

end Calls

/-! ## stack_it over the store -/

def LoadEnv.call (env : LoadEnv) (i : Nat) (m : Map) : CreateCall where
  file := m.path
  addrStart := m.start
  addrEnd := m.end_
  isExe := m.isExe
  elf := env.elf m.path
  openBfd := env.openBfd i

def LoadEnv.calls (env : LoadEnv) (maps : List Map) (i : Nat) : List CreateCall :=
  (maps.zipIdx i).map (fun mi => env.call mi.2 mi.1)

theorem loadMapsLoop_calls (env : LoadEnv) (conf : Config) (i : Nat) (maps : List Map)
    (c : BFDCache) : loadMapsLoop env conf i maps c =
      c.createAll conf env.sortSyms (!conf.noParse) (env.calls maps i) := by
  induction maps generalizing i c with
  | nil => rfl
  | cons m maps ih =>
    rw [loadMapsLoop, ih]
    rfl

theorem loadMaps_calls (env : LoadEnv) (conf : Config) (maps : List Map) : loadMaps env conf maps =
    ((({} : BFDCache).createAll conf env.sortSyms (!conf.noParse) (env.calls maps 0)).1).sortPtLoad
      env.sortLoads := by
  rw [loadMaps, loadMapsLoop_calls]

theorem loadMaps_pointers (env : LoadEnv) (conf : Config) (maps : List Map) {p : PTLoad}
    (member : p ∈ (loadMaps env conf maps).ptLoads) :
    (conf.noParse = false → ∃ st, (loadMaps env conf maps).table p = some st ∧
      st.bfdInfo.abfd.isSome = true) ∧ (conf.noParse = true → p.st = none) := by
  have store := BFDCache.createAll_consistent conf env.sortSyms (!conf.noParse) (env.calls maps 0)
  rw [loadMaps_calls] at member ⊢
  have pushed := (env.sortLoads.perm _).subset member
  constructor
  · intro parse
    exact store.nonNull (by simp [parse]) p pushed
  · intro noParse
    exact store.null (by simp [noParse]) p pushed

namespace BFDCache

def withSt (st : PTLoad → Option Nat) (c : BFDCache) : BFDCache :=
  { c with ptLoads := c.ptLoads.map (fun p => { p with st := st p }) }

theorem findPtLoad_withSt (st : PTLoad → Option Nat) (c : BFDCache) (addr : ULong) :
    (c.withSt st).findPtLoad addr =
      (c.findPtLoad addr).map (fun p => { p with st := st p }) := by
  rw [findPtLoad, findPtLoad, withSt, upperBound_map, List.getElem?_map]

theorem noParseValue_withSt (st : PTLoad → Option Nat) (c : BFDCache) (addr : ULong) :
    noParseValue (c.withSt st) addr = noParseValue c addr := by
  rw [noParseValue, noParseValue, findPtLoad_withSt]
  cases c.findPtLoad addr with
  | none => rfl
  | some p => rfl

theorem printNoParse_withSt (st : PTLoad → Option Nat) (tty : Bool) (c : BFDCache) (bt : Bt) :
    printNoParse tty (c.withSt st) bt = printNoParse tty c bt := by
  simp only [printNoParse, noParseValue_withSt]

end BFDCache

open BFDCache Loops

section StackIt

variable (env : StackEnv) (conf : Config)

/-- Debug files are all that could stop the last loops: no null st_ is read, and no entry is
missing. -/
theorem locate_defined {c : BFDCache} (loaded : c.TablesLoaded) (bts : List Bt)
    (locCache : List (ULong × Location)) :
    (∃ s, locate env conf c bts locCache = .ok s) ∨
      ∃ d, locate env conf c bts locCache = .error d ∧ d.defined = true := by
  rw [locate, fileAddrsMap_eq c loaded]
  have steps (s : LocateState) (kv : Str × List (ULong × ULong)) (loaded : s.1.TablesLoaded) :=
    locateFile_cases env conf loaded kv
  rcases foldlM_cases steps
      (env.fileOrder.run (filesOf ((addrsInOrder env bts).filterMap (placed c))))
      (s := (c, locCache)) loaded with ⟨s, ran, _⟩ | died
  · exact Or.inl ⟨s, ran⟩
  · exact Or.inr died

theorem locate_finishes (usable : ∀ file offsets, Usable env conf file offsets) {c : BFDCache}
    (loaded : c.TablesLoaded) (bts : List Bt) (locCache : List (ULong × Location)) :
    ∃ s, locate env conf c bts locCache = .ok s := by
  rw [locate, fileAddrsMap_eq c loaded]
  have files := locateFiles_usable env conf (c, locCache)
    (fun kv (_ : kv ∈ env.fileOrder.run (filesOf ((addrsInOrder env bts).filterMap (placed c)))) =>
      usable kv.1 (kv.2.map Prod.snd))
  obtain ⟨s, ran, _⟩ := foldlM_total
    (fun _ t loaded => locateOne_total env conf loaded t) _ (s := (c, locCache)) loaded
  exact ⟨s, files.trans ran⟩

def stackItCache (os : ObStack) : BFDCache :=
  loadMaps env.load conf (os.maps ++ readMaps env.stat os.pid env.junk env.uninit env.mapFile)

/-- What stack_it and do_addr2symbol read through st_: tables that are there when parsing, so that
it ends otherwise than by its return only where a debug file makes it, and with -n nothing, since
other pointers would print the same. -/
structure PointersSafe (os : ObStack) : Prop where
  nonNull : conf.noParse = false → ∀ p ∈ (stackItCache env conf os).ptLoads,
    ∃ st, (stackItCache env conf os).table p = some st ∧ st.bfdInfo.abfd.isSome = true
  queries : conf.noParse = false → ∀ locCache total hit lack addr,
    (fileAddr { stackItCache env conf os with locCache, total, hit, lack } addr).isSome = true ∧
      (doAddr2symbol { stackItCache env conf os with locCache, total, hit, lack } addr).isSome = true
  parses : conf.noParse = false → ∀ death, stackIt env conf os = .error death →
    death.defined = true
  finishes : conf.noParse = false → (∀ file offsets, Usable env conf file offsets) →
    ∃ text, stackIt env conf os = .ok text
  null : conf.noParse = true → ∀ p ∈ (stackItCache env conf os).ptLoads, p.st = none
  unread : conf.noParse = true → ∀ st, stackIt env conf os =
    .ok (os.bts.flatMap (printNoParse env.tty ((stackItCache env conf os).withSt st)))

theorem stackIt_pointers (os : ObStack) : PointersSafe env conf os := by
  constructor
  case nonNull => exact fun parse p hp => (loadMaps_pointers env.load conf _ hp).1 parse
  case queries =>
    intro parse locCache total hit lack addr
    have loaded : (stackItCache env conf os).TablesLoaded := loadMaps_tables env.load conf parse
    have same : TablesLoaded { stackItCache env conf os with locCache, total, hit, lack } :=
      ⟨loaded.stored, loaded.loads⟩
    obtain ⟨s, answered, _⟩ := TablesLoaded.doAddr2symbol same addr
    exact ⟨fileAddr_isSome _ same addr, by rw [answered]; rfl⟩
  case parses =>
    intro parse death
    have loaded : (stackItCache env conf os).TablesLoaded := loadMaps_tables env.load conf parse
    rw [stackIt, parse, if_neg (by decide)]
    change (Except.map _ (locate env conf (stackItCache env conf os) os.bts os.locCache)).map _ =
      .error death → _
    rcases locate_defined env conf loaded os.bts os.locCache with ⟨s, ran⟩ | ⟨d, died, defined⟩
    · rw [ran]
      rintro ⟨⟩
    · rw [died]
      rintro ⟨⟩
      exact defined
  case finishes =>
    intro parse usable
    have loaded : (stackItCache env conf os).TablesLoaded := loadMaps_tables env.load conf parse
    obtain ⟨s, ran⟩ := locate_finishes env conf usable loaded os.bts os.locCache
    rw [stackIt, parse, if_neg (by decide)]
    change ∃ text, (Except.map _ (locate env conf (stackItCache env conf os) os.bts
      os.locCache)).map _ = _
    rw [ran]
    exact ⟨_, rfl⟩
  case null => exact fun noParse p hp => (loadMaps_pointers env.load conf _ hp).2 noParse
  case unread =>
    intro noParse st
    rw [stackIt, noParse, if_pos rfl, funext (printNoParse_withSt st env.tty _)]
    rfl

/-- The store after any sequence of calls, and the chains of pointers that stack_it and
do_addr2symbol follow without a check. -/
theorem createNewPtLoad_store (sort : StdSort SymbolEnt.less) (loadSyms : Bool)
    (calls : List CreateCall) (os : ObStack) :
    Consistent conf sort loadSyms calls (createAll conf sort loadSyms {} calls).1
        (createAll conf sort loadSyms {} calls).2 ∧
      PointersSafe env conf os :=
  ⟨createAll_consistent conf sort loadSyms calls, stackIt_pointers env conf os⟩

end StackIt

end Obstack
