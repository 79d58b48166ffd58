import Obstack.Dwarf
import Obstack.Ranges
import Obstack.StackIt

/-! stack_it in parsing mode. The regrouping by file only permutes the placed addresses, the
index loops keep each offset with its line, and addr2symbol answers from the address alone; a
debug file that cannot be used ends the process. -/
namespace Obstack
open CText Sorted Assoc Loops BFDCache

/-! ## Lines -/

/-- The line info of an offset: what the last object of the debug file that knows it answers, or
the default when there is none. -/
def lineInfoFor (env : StackEnv) (conf : Config) (debugFile : Str) (offset : ULong) : LineInfo :=
  if conf.noLineno then {}
  else match env.expandBundle debugFile with
    | none => {}
    | some objs =>
      (lastKnown ((metFiles (objs.map env.binary)).filterMap Met.object?) offset).getD {}

/-- stack_it comes back from a debug file that it asks for offsets: the file is there and can be
read, and signals are raised in lookups only, none but those that are caught. -/
structure Usable (env : StackEnv) (conf : Config) (debugFile : Str) (offsets : List ULong) :
    Prop where
  there : env.fileExist debugFile = true
  reads : ∃ objs, env.expandBundle debugFile = some objs ∧ (conf.noLineno = true ∨
    ∀ met ∈ metFiles (objs.map env.binary), met.Harmless offsets)

theorem met_harmless_iff {offsets : List ULong} (asked : offsets ≠ []) (met : Met) :
    met.Harmless offsets ↔ ∀ offset ∈ offsets, met.Harmless [offset] := by
  obtain ⟨first, rest, rfl⟩ := List.exists_cons_of_ne_nil asked
  cases met with
  | exit => exact ⟨False.elim, fun each => each first List.mem_cons_self⟩
  | crash sig => exact ⟨False.elim, fun each => each first List.mem_cons_self⟩
  | object obj =>
    constructor
    · intro harmless offset member
      refine ⟨harmless.loads, fun other single => ?_⟩
      rw [List.mem_singleton.mp single]
      exact harmless.caught offset member
    · intro each
      exact ⟨(each first List.mem_cons_self).loads, fun offset member =>
        (each offset member).caught offset (List.mem_singleton_self offset)⟩

section Files

variable (env : StackEnv) (conf : Config) {file : Str} {offsets : List ULong}

theorem usable_iff (asked : offsets ≠ []) :
    Usable env conf file offsets ↔ ∀ offset ∈ offsets, Usable env conf file [offset] := by
  constructor
  · rintro ⟨there, objs, found, reads⟩ offset member
    refine ⟨there, objs, found, reads.imp_right fun harmless met met_mem => ?_⟩
    exact (met_harmless_iff asked met).mp (harmless met met_mem) offset member
  · intro each
    obtain ⟨first, rest, rfl⟩ := List.exists_cons_of_ne_nil asked
    obtain ⟨there, objs, found, _⟩ := each first List.mem_cons_self
    refine ⟨there, objs, found, ?_⟩
    cases lines : conf.noLineno with
    | true => exact Or.inl rfl
    | false =>
      refine Or.inr fun met met_mem => (met_harmless_iff asked met).mpr fun offset member => ?_
      obtain ⟨_, objs', found', reads⟩ := each offset member
      obtain rfl := Option.some.inj (found.symm.trans found')
      exact reads.resolve_left (by simp [lines]) met met_mem

theorem lineInfosOf_usable (usable : Usable env conf file offsets) :
    lineInfosOf env conf file offsets = .ok (offsets.map (lineInfoFor env conf file)) := by
  obtain ⟨objs, found, reads⟩ := usable.reads
  unfold lineInfosOf lineInfoFor
  simp only [found]
  cases lines : conf.noLineno with
  | true => simp
  | false =>
    have aligned : offsets.length = (offsets.map fun _ => ({} : LineInfo)).length := by simp
    have harmless := reads.resolve_left (by simp [lines])
    simp only [Bool.false_eq_true, if_false, ← List.map_const',
      llvmAddr2line_harmless aligned harmless, List.zipWith_map_right, List.zipWith_self,
      looked_merged]
    rfl

theorem lineInfosOf_unusable (there : env.fileExist file = true)
    (unusable : ¬ Usable env conf file offsets) :
    ∃ d, lineInfosOf env conf file offsets = .error d ∧ d.defined = true := by
  unfold lineInfosOf
  cases found : env.expandBundle file with
  | none => exact ⟨.exited, rfl, rfl⟩
  | some objs =>
    have harmful : ¬ (conf.noLineno = true ∨
        ∀ met ∈ metFiles (objs.map env.binary), met.Harmless offsets) := fun reads =>
      unusable ⟨there, objs, found, reads⟩
    obtain ⟨lines, harmful⟩ := not_or.mp harmful
    have aligned : offsets.length = (List.replicate offsets.length ({} : LineInfo)).length := by
      simp
    obtain ⟨d, died, defined⟩ := llvmAddr2line_harmful aligned harmful
    refine ⟨d, ?_, defined⟩
    simp only [lines, died]
    rfl

end Files

/-! ## The last loops -/

abbrev Placed := Str × ULong × ULong

abbrev LocateState := BFDCache × List (ULong × Location)

def locateOne (env : StackEnv) (conf : Config) (s : LocateState) (t : Placed) :
    Except Death LocateState :=
  insertLocation env (lineInfoFor env conf t.1 t.2.2) t.2.1 s

def placedOf (kv : Str × List (ULong × ULong)) : List Placed := kv.2.map (fun pair => (kv.1, pair))

section Loops

variable (env : StackEnv) (conf : Config)

theorem locateFile_usable (s : LocateState) {kv : Str × List (ULong × ULong)}
    (usable : Usable env conf kv.1 (kv.2.map Prod.snd)) :
    locateFile env conf s kv = (placedOf kv).foldlM (locateOne env conf) s := by
  have step (s : LocateState) (i : Nat) :
      locateAt env kv.2 ((kv.2.map Prod.snd).map (lineInfoFor env conf kv.1)) s i =
        orBadAccess kv.2[i]? >>= fun pair => locateOne env conf s (kv.1, pair) := by
    simp only [locateAt, List.getElem?_map]
    cases kv.2[i]? <;> rfl
  rw [locateFile, placedOf, List.foldlM_map]
  simp only [usable.there, if_true, lineInfosOf_usable env conf usable]
  rw [List.length_map]
  change List.foldlM (locateAt env kv.2 _) s _ = _
  rw [funext₂ step]
  exact foldlM_range (fun _ => rfl) (fun s pair => locateOne env conf s (kv.1, pair)) kv.2 s

theorem locateFile_unusable (s : LocateState) {kv : Str × List (ULong × ULong)}
    (unusable : ¬ Usable env conf kv.1 (kv.2.map Prod.snd)) :
    ∃ d, locateFile env conf s kv = .error d ∧ d.defined = true := by
  unfold locateFile
  cases there : env.fileExist kv.1 with
  | false => exact ⟨.exited, rfl, rfl⟩
  | true =>
    obtain ⟨d, died, defined⟩ := lineInfosOf_unusable env conf there unusable
    exact ⟨d, by simp only [if_true, died]; rfl, defined⟩

theorem locateFiles_usable {m : List (Str × List (ULong × ULong))} (s : LocateState)
    (usable : ∀ kv ∈ m, Usable env conf kv.1 (kv.2.map Prod.snd)) :
    m.foldlM (locateFile env conf) s = (m.flatMap placedOf).foldlM (locateOne env conf) s := by
  rw [foldlM_flatMap]
  induction m generalizing s with
  | nil => rfl
  | cons kv m ih =>
    rw [List.foldlM_cons, List.foldlM_cons, locateFile_usable env conf s (usable kv (by simp))]
    congr 1
    funext s
    exact ih s (fun kv hkv => usable kv (by simp [hkv]))

theorem TablesLoaded.doAddr2symbol {c : BFDCache} (loaded : c.TablesLoaded) (addr : ULong) :
    ∃ s, c.doAddr2symbol addr = some s ∧ s.1.TablesLoaded := by
  rw [doAddr2symbol_eq]
  cases Assoc.find addr c.locCache with
  | some loc => exact ⟨_, rfl, loaded.stored, loaded.loads⟩
  | none =>
    cases found : c.searchPtLoad addr with
    | none => exact ⟨_, rfl, loaded.stored, loaded.loads⟩
    | some p =>
      obtain ⟨st, table⟩ := loaded.exists_table (searchPtLoad_inRange found).1
      simp only [table, Option.map_some]
      exact ⟨_, rfl, loaded.stored, loaded.loads⟩

theorem locateOne_total {s : LocateState} (loaded : s.1.TablesLoaded) (t : Placed) :
    ∃ s', locateOne env conf s t = .ok s' ∧ s'.1.TablesLoaded := by
  obtain ⟨answer, answered, kept⟩ := TablesLoaded.doAddr2symbol loaded t.2.1
  rw [locateOne, insertLocation, answered]
  exact ⟨_, rfl, kept⟩

/-- A file is done with its tables left alone, or ends the process. -/
theorem locateFile_cases {s : LocateState} (loaded : s.1.TablesLoaded)
    (kv : Str × List (ULong × ULong)) :
    (∃ s', locateFile env conf s kv = .ok s' ∧ s'.1.TablesLoaded) ∨
      ∃ d, locateFile env conf s kv = .error d ∧ d.defined = true := by
  by_cases usable : Usable env conf kv.1 (kv.2.map Prod.snd)
  · rw [locateFile_usable env conf s usable]
    exact Or.inl (foldlM_total (fun _ t loaded => locateOne_total env conf loaded t) _ loaded)
  · exact Or.inr (locateFile_unusable env conf s usable)

end Loops

/-! ## Regrouping by debug file -/

section Regroup

variable (c : BFDCache)

def placed (addr : ULong) : Option Placed :=
  (fileAddr c addr).join.map (fun place => (place.1, addr, place.2))

theorem fileAddr_isSome (loaded : c.TablesLoaded) (addr : ULong) :
    (fileAddr c addr).isSome = true := by
  unfold fileAddr
  cases found : c.findPtLoad addr with
  | none => rfl
  | some p =>
    have member : p ∈ c.ptLoads := findPtLoad_mem found
    obtain ⟨st, table⟩ := loaded.exists_table member
    simp [table]

def filesOf (ts : List Placed) : List (Str × List (ULong × ULong)) :=
  groupFold Prod.fst (fun _ => []) (fun t l => l ++ [t.2]) ts

theorem filesOf_eq (ts : List Placed) : filesOf ts = (groupKeys Prod.fst ts).map
    (fun k => (k, (ts.filter (fun t => t.1 = k)).map Prod.snd)) := by
  apply groupFold_eq (List.map Prod.snd)
  · intro t
    rfl
  · intro l t _
    simp

theorem fileAddrsMap_eq (loaded : c.TablesLoaded) (addrs : List ULong) :
    fileAddrsMap c addrs = some (filesOf (addrs.filterMap (placed c))) := by
  have total : ∀ a ∈ addrs,
      ((fileAddr c a).map (Option.map (fun place => (place.1, a, place.2)))).isSome = true := by
    intro a _
    rw [Option.isSome_map]
    exact fileAddr_isSome c loaded a
  have contributions := foldlM_contributions _
    (fun m (t : Placed) => upsert t.1 [] (· ++ [t.2]) m) addrs [] total
  have contribution (a : ULong) :
      ((fileAddr c a).map (Option.map (fun place => (place.1, a, place.2)))).join = placed c a := by
    unfold placed
    cases fileAddr c a <;> rfl
  simp only [contribution] at contributions
  rw [filesOf, groupFold, ← contributions, fileAddrsMap]
  congr 1
  funext m a
  cases fileAddr c a with
  | none => rfl
  | some place => cases place <;> rfl

theorem filesOf_perm (ts : List Placed) : ((filesOf ts).flatMap placedOf).Perm ts := by
  rw [filesOf_eq, List.flatMap_map]
  have groups : (groupKeys Prod.fst ts).flatMap
      (fun k => placedOf (k, (ts.filter (fun t => t.1 = k)).map Prod.snd)) =
        (groupKeys Prod.fst ts).flatMap (fun k => ts.filter (fun t => t.1 = k)) := by
    apply List.flatMap_congr
    intro k _
    rw [placedOf, List.map_map]
    refine (List.map_congr_left ?_).trans (List.map_id _)
    intro t ht
    have file : t.1 = k := by simpa using (List.mem_filter.mp ht).2
    exact Prod.ext file.symm rfl
  rw [groups]
  exact groups_perm _ (nodup_groupKeys ts) ts (fun t ht => mem_groupKeys.mpr ⟨t, ht, rfl⟩)

theorem placed_addr {a : ULong} {t : Placed} (found : placed c a = some t) : t.2.1 = a := by
  obtain ⟨place, _, rfl⟩ := Option.map_eq_some_iff.mp found
  rfl

theorem placed_sublist (addrs : List ULong) :
    ((addrs.filterMap (placed c)).map (fun t => t.2.1)).Sublist addrs := by
  induction addrs with
  | nil => exact List.Sublist.refl _
  | cons a addrs ih =>
    cases found : placed c a with
    | none => simpa [List.filterMap_cons, found] using ih.cons a
    | some t => simpa [List.filterMap_cons, found, placed_addr c found] using ih.cons_cons a

theorem placed_covered (asc : Ascending PTLoad.lo PTLoad.hi c.ptLoads) {addr : ULong} {p : PTLoad}
    (member : p ∈ c.ptLoads) (inside : inRange addr p = true) {st : SymbolTable}
    (table : c.table p = some st) :
    placed c addr = some (st.bfdInfo.debugFile, addr, addr2offset p addr) := by
  simp [placed, fileAddr, findPtLoad_covered asc member inside, table]

theorem placed_loaded {c : BFDCache} {addr : ULong} {t : Placed} (found : placed c addr = some t) :
    ∃ p ∈ c.ptLoads, ∃ st, c.table p = some st ∧ st.bfdInfo.debugFile = t.1 := by
  obtain ⟨place, join, rfl⟩ := Option.map_eq_some_iff.mp found
  have placedAt := Option.join_eq_some_iff.mp join
  unfold fileAddr at placedAt
  split at placedAt
  · cases placedAt
  · rename_i p search
    obtain ⟨st, table, same⟩ := Option.map_eq_some_iff.mp placedAt
    obtain rfl := Option.some.inj same
    exact ⟨p, findPtLoad_mem search, st, table, rfl⟩

end Regroup

theorem addrMap_keys (bts : List Bt) :
    ((addrMap bts).map Prod.fst).Nodup ∧
      ∀ a, a ∈ (addrMap bts).map Prod.fst ↔ ∃ bt ∈ bts, a ∈ bt.addrs := by
  have flat : addrMap bts = (bts.flatMap Bt.addrs).foldl (fun m a => insert a {} m) [] :=
    List.foldl_flatMap.symm
  rw [flat]
  refine ⟨nodup_insertAll _ _ _ (by simp), fun a => ?_⟩
  rw [mem_insertAll_keys]
  simp

/-! ## Locations -/

def locationFor (env : StackEnv) (conf : Config) (t : Placed) (loc : Location) : Location where
  file := loc.file
  function := getDemangledSymbol env.cplusDemangle loc.function
  filename := (lineInfoFor env conf t.1 t.2.2).filename
  line := (lineInfoFor env conf t.1 t.2.2).line

/-- The whole run of addr2symbol calls: distinct addresses get one Location each, made from
what the cache reports for that address before the run. -/
theorem locateAll (env : StackEnv) (conf : Config) {c0 : BFDCache} (loaded : c0.TablesLoaded)
    (ts : List Placed) (distinct : (ts.map (fun t => t.2.1)).Nodup) (c : BFDCache)
    (locs : List (ULong × Location)) (loads : c.ptLoads = c0.ptLoads) (tables : c.tables = c0.tables)
    (fresh : ∀ t ∈ ts, t.2.1 ∉ c.locCache.map Prod.fst ∧ t.2.1 ∉ locs.map Prod.fst) :
    ∃ c' more, ts.foldlM (locateOne env conf) (c, locs) = .ok (c', locs ++ more) ∧
      more.map Prod.fst = ts.map (fun t => t.2.1) ∧
      ∀ t ∈ ts, ∀ loc, c0.reported t.2.1 = some loc → (t.2.1, locationFor env conf t loc) ∈ more := by
  induction ts generalizing c locs with
  | nil => exact ⟨c, [], by rw [List.append_nil]; rfl, rfl, by simp⟩
  | cons t ts ih =>
    obtain ⟨apart, distinct⟩ := List.nodup_cons.mp distinct
    obtain ⟨loc, answer⟩ := loaded.reported_isSome t.2.1
    obtain ⟨freshCache, freshLocs⟩ := fresh t (by simp)
    obtain ⟨c1, answered, loads1, tables1, keys⟩ :=
      doAddr2symbol_fresh (find_eq_none.mpr freshCache) ((reported_congr loads tables _).trans answer)
    have step : locateOne env conf (c, locs) t =
        .ok (c1, locs ++ [(t.2.1, locationFor env conf t loc)]) := by
      rw [locateOne, insertLocation, answered, ← insert_absent _ freshLocs]
      rfl
    have later : ∀ u ∈ ts, u.2.1 ∉ c1.locCache.map Prod.fst ∧
        u.2.1 ∉ (locs ++ [(t.2.1, locationFor env conf t loc)]).map Prod.fst := by
      intro u hu
      have differ : u.2.1 ≠ t.2.1 := fun same => apart (List.mem_map.mpr ⟨u, hu, same⟩)
      obtain ⟨uncached, unlocated⟩ := fresh u (by simp [hu])
      refine ⟨fun cached => (keys _ cached).elim differ uncached, ?_⟩
      rw [List.map_append, List.mem_append]
      rintro (old | new)
      · exact unlocated old
      · exact differ (by simpa using new)
    obtain ⟨c', more, run, order, stored⟩ :=
      ih distinct c1 _ (loads1.trans loads) (tables1.trans tables) later
    refine ⟨c', (t.2.1, locationFor env conf t loc) :: more, ?_, by simp [order], ?_⟩
    · rw [List.append_assoc] at run
      rw [List.foldlM_cons, step]
      exact run
    · intro u hu loc' answer'
      rcases List.mem_cons.mp hu with rfl | hu
      · rw [Option.some.inj (answer'.symm.trans answer)]
        simp
      · exact List.mem_cons_of_mem _ (stored u hu loc' answer')

section Located

variable (env : StackEnv) (conf : Config) (c : BFDCache)

/-- The Location of an address that lies below the end of some pt_load. -/
def located (addr : ULong) : Option Location :=
  (placed c addr).bind fun t => (c.reported addr).map (locationFor env conf t)

/-- Every debug file that stack_it asks for an offset can be used. -/
def FilesUsable (addrs : List ULong) : Prop :=
  ∀ addr ∈ addrs, ∀ t, placed c addr = some t → Usable env conf t.1 [t.2.2]

/-- The addresses in the order in which the files are filled with them. -/
def addrsInOrder (bts : List Bt) : List ULong := (env.addrOrder.run (addrMap bts)).map Prod.fst

theorem addrsInOrder_nodup (bts : List Bt) : (addrsInOrder env bts).Nodup :=
  ((env.addrOrder.perm _).map Prod.fst).nodup_iff.mpr (addrMap_keys bts).1

theorem mem_addrsInOrder {bts : List Bt} {addr : ULong} :
    addr ∈ addrsInOrder env bts ↔ addr ∈ bts.flatMap Bt.addrs := by
  rw [List.mem_flatMap]
  exact ((env.addrOrder.perm _).map Prod.fst).mem_iff.trans ((addrMap_keys bts).2 addr)

variable {env conf c}

theorem located_placed {addr : ULong} {t : Placed} (found : placed c addr = some t)
    {loc : Location} (answer : c.reported t.2.1 = some loc) :
    located env conf c addr = some (locationFor env conf t loc) := by
  rw [placed_addr c found] at answer
  rw [located, found, Option.bind_some, answer, Option.map_some]

/-- A file of the regrouping is asked for the offsets of the addresses placed in it. -/
theorem mem_filesOf {ts : List Placed} {kv : Str × List (ULong × ULong)} (member : kv ∈ filesOf ts) :
    kv.2 ≠ [] ∧ ∀ pair, pair ∈ kv.2 ↔ (kv.1, pair) ∈ ts := by
  rw [filesOf_eq] at member
  obtain ⟨file, key, rfl⟩ := List.mem_map.mp member
  have entries : ∀ pair, pair ∈ (ts.filter (fun t => t.1 = file)).map Prod.snd ↔ (file, pair) ∈ ts := by
    intro pair
    simp only [List.mem_map, List.mem_filter, decide_eq_true_eq]
    constructor
    · rintro ⟨⟨_, _⟩, ⟨there, rfl⟩, rfl⟩
      exact there
    · exact fun there => ⟨(file, pair), ⟨there, rfl⟩, rfl⟩
  obtain ⟨⟨_, pair⟩, there, rfl⟩ := mem_groupKeys.mp key
  exact ⟨List.ne_nil_of_mem ((entries pair).mpr there), entries⟩

/-- The files are usable for what they are asked exactly when they are for each address. -/
theorem files_usable_iff {addrs : List ULong} :
    (∀ kv ∈ filesOf (addrs.filterMap (placed c)), Usable env conf kv.1 (kv.2.map Prod.snd)) ↔
      FilesUsable env conf c addrs := by
  constructor
  · intro usable addr member t found
    have there : t ∈ addrs.filterMap (placed c) := List.mem_filterMap.mpr ⟨addr, member, found⟩
    obtain ⟨kv, grouped, inside⟩ := List.mem_flatMap.mp ((filesOf_perm _).symm.subset there)
    obtain ⟨pair, asked, rfl⟩ := List.mem_map.mp inside
    have some := (mem_filesOf grouped).1
    exact (usable_iff env conf (by simpa using some)).mp (usable kv grouped) _
      (List.mem_map_of_mem asked)
  · intro usable kv grouped
    obtain ⟨some, entries⟩ := mem_filesOf grouped
    refine (usable_iff env conf (by simpa using some)).mpr fun offset asked => ?_
    obtain ⟨pair, member, rfl⟩ := List.mem_map.mp asked
    obtain ⟨addr, sampled, found⟩ := List.mem_filterMap.mp ((entries pair).mp member)
    exact usable addr sampled _ found

end Located

section Locate

variable (env : StackEnv) (conf : Config) {c : BFDCache} (loaded : c.TablesLoaded)
include loaded

theorem locate_usable (empty : c.locCache = []) {bts : List Bt}
    (usable : FilesUsable env conf c (bts.flatMap Bt.addrs)) :
    ∃ c' locs, locate env conf c bts [] = .ok (c', locs) ∧ (locs.map Prod.fst).Nodup ∧
      ∀ bt ∈ bts, ∀ addr ∈ bt.addrs, find addr locs = located env conf c addr := by
  let addrs := addrsInOrder env bts
  let ts := (env.fileOrder.run (filesOf (addrs.filterMap (placed c)))).flatMap placedOf
  have same : ts.Perm (addrs.filterMap (placed c)) :=
    ((env.fileOrder.perm _).flatMap_right placedOf).trans (filesOf_perm _)
  have distinctPlaced : (ts.map (fun t => t.2.1)).Nodup :=
    (same.map _).nodup_iff.mpr ((addrsInOrder_nodup env bts).sublist (placed_sublist c addrs))
  have files : ∀ kv ∈ env.fileOrder.run (filesOf (addrs.filterMap (placed c))),
      Usable env conf kv.1 (kv.2.map Prod.snd) := by
    intro kv member
    refine files_usable_iff.mpr (fun addr inOrder => ?_) kv ((env.fileOrder.perm _).subset member)
    exact usable addr ((mem_addrsInOrder env).mp inOrder)
  obtain ⟨c', locs, run, keys, stored⟩ := locateAll env conf loaded ts distinctPlaced c [] rfl rfl
    (by simp [empty])
  have once : (locs.map Prod.fst).Nodup := keys ▸ distinctPlaced
  refine ⟨c', locs, ?_, once, ?_⟩
  · rw [locate, fileAddrsMap_eq c loaded]
    exact (locateFiles_usable env conf _ files).trans run
  · intro bt hbt addr haddr
    have here : addr ∈ addrs := (mem_addrsInOrder env).mpr (List.mem_flatMap.mpr ⟨bt, hbt, haddr⟩)
    cases found : placed c addr with
    | none =>
      rw [located, found, Option.bind_none, find_eq_none, keys]
      intro key
      obtain ⟨t, member, rfl⟩ := List.mem_map.mp key
      obtain ⟨other, _, placedAt⟩ := List.mem_filterMap.mp (same.subset member)
      rw [← placed_addr c placedAt, found] at placedAt
      cases placedAt
    | some t =>
      have member : t ∈ ts := same.symm.subset (List.mem_filterMap.mpr ⟨addr, here, found⟩)
      obtain ⟨loc, answer⟩ := loaded.reported_isSome t.2.1
      rw [located_placed found answer]
      have entry := stored t member loc answer
      rw [placed_addr c found] at entry
      exact find_unique once entry

theorem locate_unusable {bts : List Bt}
    (unusable : ¬ FilesUsable env conf c (bts.flatMap Bt.addrs))
    (locCache : List (ULong × Location)) :
    ∃ d, locate env conf c bts locCache = .error d ∧ d.defined = true := by
  have unread : ¬ FilesUsable env conf c (addrsInOrder env bts) := fun usable =>
    unusable fun addr sampled => usable addr ((mem_addrsInOrder env).mpr sampled)
  rw [← files_usable_iff] at unread
  simp only [not_forall] at unread
  obtain ⟨kv, member, bad⟩ := unread
  rw [locate]
  change ∃ d, orBadAccess (fileAddrsMap c (addrsInOrder env bts)) >>= _ = .error d ∧ _
  rw [fileAddrsMap_eq c loaded]
  have steps (s : LocateState) (kv : Str × List (ULong × ULong)) (loaded : s.1.TablesLoaded) :=
    locateFile_cases env conf loaded kv
  exact foldlM_fails steps (fun s _ => locateFile_unusable env conf s bad)
    ((env.fileOrder.perm _).symm.subset member) loaded

end Locate

/-! ## Reports -/

def loadedCache (env : StackEnv) (conf : Config) (pid : Nat) : BFDCache :=
  loadMaps env.load conf (readMaps env.stat pid env.junk env.uninit env.mapFile)

section Parse

variable (env : StackEnv) (conf : Config) (parse : conf.noParse = false) (pid : Nat) (bts : List Bt)
include parse

theorem stackItParse_usable
    (usable : FilesUsable env conf (loadedCache env conf pid) (bts.flatMap Bt.addrs)) :
    ∃ os, stackItParse env conf { pid, bts } = .ok os ∧ os.bts = bts ∧
      (os.locCache.map Prod.fst).Nodup ∧ ∀ bt ∈ bts, ∀ addr ∈ bt.addrs,
        find addr os.locCache = located env conf (loadedCache env conf pid) addr := by
  have loaded : (loadedCache env conf pid).TablesLoaded := loadMaps_tables env.load conf parse
  obtain ⟨c', locs, run, once, answers⟩ :=
    locate_usable env conf loaded (loadMaps_locCache env.load conf) usable
  refine ⟨{ pid, bts, maps := readMaps env.stat pid env.junk env.uninit env.mapFile,
            locCache := locs }, ?_, rfl, once, answers⟩
  simp only [stackItParse, List.nil_append]
  change (locate env conf (loadedCache env conf pid) bts []).map _ = _
  rw [run]
  rfl

theorem stackItParse_unusable
    (unusable : ¬ FilesUsable env conf (loadedCache env conf pid) (bts.flatMap Bt.addrs)) :
    ∃ d, stackItParse env conf { pid, bts } = .error d ∧ d.defined = true := by
  have loaded : (loadedCache env conf pid).TablesLoaded := loadMaps_tables env.load conf parse
  obtain ⟨d, died, defined⟩ := locate_unusable env conf loaded unusable []
  refine ⟨d, ?_, defined⟩
  simp only [stackItParse, List.nil_append]
  change (locate env conf (loadedCache env conf pid) bts []).map _ = _
  rw [died]
  rfl

/-- What stack_it reaches gen_result with. -/
theorem stackItParse_reached {os : ObStack} (reached : stackItParse env conf { pid, bts } = .ok os) :
    os.bts = bts ∧ (os.locCache.map Prod.fst).Nodup ∧ ∀ bt ∈ bts, ∀ addr ∈ bt.addrs,
      find addr os.locCache = located env conf (loadedCache env conf pid) addr := by
  by_cases usable : FilesUsable env conf (loadedCache env conf pid) (bts.flatMap Bt.addrs)
  · obtain ⟨os', parsed, kept⟩ := stackItParse_usable env conf parse pid bts usable
    rw [reached] at parsed
    rw [Except.ok.inj parsed]
    exact kept
  · obtain ⟨d, died, _⟩ := stackItParse_unusable env conf parse pid bts usable
    rw [reached] at died
    cases died

end Parse

/-- One Location for each covered address, made from its pt_load, symbol table and offset
alone. -/
structure LocationsRight (env : StackEnv) (conf : Config) (c : BFDCache) (bts : List Bt)
    (locCache : List (ULong × Location)) : Prop where
  once : (locCache.map Prod.fst).Nodup
  right : ∀ bt ∈ bts, ∀ addr ∈ bt.addrs, ∀ p ∈ c.ptLoads, inRange addr p = true →
    ∃ st sym, c.table p = some st ∧ (c.doAddr2symbol addr).map Prod.snd = some sym ∧
      sym.file = st.bfdInfo.file ∧
      sym.function = traceBfdAddr st (addr2offset p addr) unknown ∧
      find addr locCache = some
        { file := sym.file
          function := getDemangledSymbol env.cplusDemangle sym.function
          filename := (lineInfoFor env conf st.bfdInfo.debugFile (addr2offset p addr)).filename
          line := (lineInfoFor env conf st.bfdInfo.debugFile (addr2offset p addr)).line }

theorem locationsRight_of_located {env : StackEnv} {conf : Config} {c : BFDCache}
    (loaded : c.TablesLoaded) (empty : c.locCache = [])
    (asc : Ascending PTLoad.lo PTLoad.hi c.ptLoads) {bts : List Bt}
    {locCache : List (ULong × Location)} (once : (locCache.map Prod.fst).Nodup)
    (answers : ∀ bt ∈ bts, ∀ addr ∈ bt.addrs, find addr locCache = located env conf c addr) :
    LocationsRight env conf c bts locCache := by
  refine ⟨once, fun bt hbt addr haddr p member inside => ?_⟩
  obtain ⟨st, table⟩ := loaded.exists_table member
  have answer := reported_covered asc member inside table
  have fresh : find addr c.locCache = none := by rw [empty]; rfl
  obtain ⟨_, answered, _⟩ := doAddr2symbol_fresh fresh answer
  refine ⟨st, symbolOf st p addr, table, by rw [answered]; rfl, rfl, rfl, ?_⟩
  rw [answers bt hbt addr haddr, located_placed (placed_covered c asc member inside table) answer]
  rfl

/-- Every stack_it that reaches gen_result has one Location for each covered address, made from
the pt_load and the lookup of that address alone; and with debug files that are there, can be read
and fault only where it is caught, it reaches it. -/
theorem stackIt_locations (env : StackEnv) (conf : Config) (parse : conf.noParse = false)
    (pid : Nat) (bts : List Bt)
    (ranges : Ascending PTLoad.lo PTLoad.hi (loadedCache env conf pid).ptLoads) :
    (∀ os, stackItParse env conf { pid, bts } = .ok os → os.bts = bts ∧
      LocationsRight env conf (loadedCache env conf pid) bts os.locCache) ∧
    ((∀ p ∈ (loadedCache env conf pid).ptLoads, ∀ st, (loadedCache env conf pid).table p = some st →
        ∀ offset, Usable env conf st.bfdInfo.debugFile [offset]) →
      ∃ os, stackItParse env conf { pid, bts } = .ok os) := by
  have loaded : (loadedCache env conf pid).TablesLoaded := loadMaps_tables env.load conf parse
  constructor
  · intro os reached
    obtain ⟨kept, once, answers⟩ := stackItParse_reached env conf parse pid bts reached
    exact ⟨kept, locationsRight_of_located loaded (loadMaps_locCache env.load conf) ranges once
      answers⟩
  · intro usable
    have files : FilesUsable env conf (loadedCache env conf pid) (bts.flatMap Bt.addrs) := by
      intro addr _ t found
      obtain ⟨p, member, st, table, file⟩ := placed_loaded found
      exact file ▸ usable p member st table t.2.2
    obtain ⟨os, parsed, _⟩ := stackItParse_usable env conf parse pid bts files
    exact ⟨os, parsed⟩

/-- An object that faults at address 0 and knows a line everywhere else. -/
def quietObject : DebugObject where
  loadRegisterInfo := .back ()
  getDIEsForAddress address := if address = 0 then .raised .SIGSEGV else .back true
  getLineInfoForAddress address := .back (some ⟨['l', '.', 'c'], address.truncate 32⟩)

/-- A process with the given maps file, all of whose debug files are that object. -/
def quietStackEnv (mapFile : Option Str) : StackEnv where
  tty := false
  stat _ := none
  mapFile := mapFile
  junk := default
  uninit := default
  load := bareEnv []
  fileExist _ := true
  expandBundle file := some [file]
  binary _ := some (.object quietObject)
  cplusDemangle _ := none
  addrOrder := IterOrder.asStored _
  fileOrder := IterOrder.asStored _
  btOrder := IterOrder.asStored _
  sortBts := StdSort.byKey (fun it => OrderDual.toDual it.2.tids.length) _
    (fun _ _ => by exact decide_eq_true_iff)

theorem quiet_usable (mapFile : Option Str) (conf : Config) (file : Str) (offset : ULong) :
    Usable (quietStackEnv mapFile) conf file [offset] := by
  refine ⟨rfl, [file], rfl, Or.inr fun met member => ?_⟩
  obtain rfl := List.mem_singleton.mp member
  refine ⟨rfl, fun address _ sig raised => ?_⟩
  simp only [DebugObject.lookup, quietObject] at raised
  by_cases zero : address = 0
  · rw [if_pos zero] at raised
    cases raised
    decide
  · rw [if_neg zero] at raised
    cases raised

theorem stackIt_locations_library :
    let env := quietStackEnv (some (Vma.file [textLine]))
    let bts : List Bt := [⟨7, ['t'], [0x7f0000001000, 0x7f0000001010], []⟩,
      ⟨8, ['u'], [0x7f0000001010], []⟩]
    (∀ os, stackItParse env {} { pid := 1, bts } = .ok os → os.bts = bts ∧
      LocationsRight env {} (loadedCache env {} 1) bts os.locCache) ∧
    ((∀ p ∈ (loadedCache env {} 1).ptLoads, ∀ st, (loadedCache env {} 1).table p = some st →
        ∀ offset, Usable env {} st.bfdInfo.debugFile [offset]) →
      ∃ os, stackItParse env {} { pid := 1, bts } = .ok os) :=
  stackIt_locations _ {} rfl 1 _
    (loadMaps_ascending _ _ (readMaps_ascending _ _ _ _ ⟨by decide, by decide⟩
      (Vma.readWhole_of_fits_all (by decide))).disjoint)

end Obstack
