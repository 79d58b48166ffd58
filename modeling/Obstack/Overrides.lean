import Obstack.Store

/-! Which file the -s and -d paths replace. The choice is made from the load address of a
path, once, and the is_exe flag of the maps has no part in it. -/
namespace Obstack
open CText Sorted BFDCache

namespace BFDCache

section Append

variable (conf : Config) (sort : StdSort SymbolEnt.less) (loadSyms : Bool)

theorem createAll_append (c : BFDCache) (calls more : List CreateCall) :
    c.createAll conf sort loadSyms (calls ++ more) =
      (((c.createAll conf sort loadSyms calls).1.createAll conf sort loadSyms more).1,
        (c.createAll conf sort loadSyms calls).2 ++
          ((c.createAll conf sort loadSyms calls).1.createAll conf sort loadSyms more).2) := by
  induction calls generalizing c with
  | nil => rfl
  | cons call calls ih =>
    rw [List.cons_append, createAll, ih]
    rfl

theorem createAll_answer (before after : List CreateCall) (call : CreateCall) :
    (createAll conf sort true {} (before ++ call :: after)).2[before.length]? =
      some ((createAll conf sort true {} before).1.create conf sort true call).2 := by
  have length := createAll_length conf sort true {} before
  rw [createAll_append, List.getElem?_append_right (by omega), length, Nat.sub_self]
  rfl

/-- A path has its table once some call for it opened the file. -/
theorem createAll_known_iff (before : List CreateCall) (path : Str) :
    path ∈ (createAll conf sort true {} before).1.stMap.map Prod.fst ↔
      ∃ call ∈ before, call.file = path ∧ call.Opens conf := by
  have store := createAll_store conf sort true before
  have length := createAll_length conf sort true {} before
  rw [store.known]
  constructor
  · rintro ⟨d, hd, file, opens⟩
    exact ⟨d.1, (List.of_mem_zip hd).1, file, opens rfl⟩
  · rintro ⟨call, member, file, opens⟩
    obtain ⟨i, inside, rfl⟩ := List.getElem_of_mem member
    refine ⟨(before[i], (createAll conf sort true {} before).2[i]), ?_, file, fun _ => opens⟩
    rw [← List.getElem_zip (h := by simp [length, inside])]
    exact List.getElem_mem _

/-- A call gets a pt_load when some call for its path so far, it included, opens the file. -/
theorem createAll_some_iff (before after : List CreateCall) (call : CreateCall) :
    (∃ p, (createAll conf sort true {} (before ++ call :: after)).2[before.length]? =
        some (some p)) ↔
      ∃ call' ∈ before ++ [call], call'.file = call.file ∧ call'.Opens conf := by
  have effect := create_effect conf sort true (createAll conf sort true {} before).1 call
  have known := createAll_known_iff conf sort before call.file
  rw [createAll_answer]
  constructor
  · rintro ⟨p, created⟩
    have some_ : ¬ (true = true ∧ call.file ∉ (createAll conf sort true {} before).1.stMap.map
        Prod.fst ∧ ¬ call.Opens conf) := by
      rw [← effect.fails, Option.some.inj created]
      simp
    by_cases opens : call.Opens conf
    · exact ⟨call, by simp, rfl, opens⟩
    · have present := not_not.mp (fun absent => some_ ⟨rfl, absent, opens⟩)
      obtain ⟨call', member, found⟩ := known.mp present
      exact ⟨call', by simp [member], found⟩
  · rintro ⟨call', member, file, opens⟩
    cases created : ((createAll conf sort true {} before).1.create conf sort true call).2 with
    | some p => exact ⟨p, rfl⟩
    | none =>
      obtain ⟨_, absent, closed⟩ := effect.fails.mp created
      rcases List.mem_append.mp member with earlier | here
      · exact absurd (known.mpr ⟨call', earlier, file, opens⟩) absent
      · rw [List.mem_singleton.mp here] at opens
        exact absurd opens closed

end Append

end BFDCache

section Overrides

variable (env : LoadEnv) (conf : Config)

/-- p_vaddr of the first executable PT_LOAD, or 0. -/
def LoadEnv.loadVaddr (path : Str) : ULong := (checkShlib (env.elf path) 0).2

/-- The file that BFDInfo::init is asked to open. -/
def LoadEnv.symbolFile (path : Str) : Str :=
  if env.loadVaddr path ≠ 0 then conf.symbolPath.getD path else path

/-- The override for the executable, its own path for anything else. -/
structure OverrideRight (c : BFDCache) (m : Map) (p : PTLoad) : Prop where
  exe : p.isExe = true → ∃ st, c.table p = some st ∧
    (∀ s, conf.symbolPath = some s → st.bfdInfo.file = s) ∧
    ∀ d, conf.debuginfoPath = some d → st.bfdInfo.debugFile = d
  library : p.isExe = false → ∃ st, c.table p = some st ∧ st.bfdInfo.file = m.path ∧
    st.bfdInfo.debugFile = m.path

def OverridesRight (maps : List Map) : Prop :=
  ∀ (i : Nat) (m : Map) (p : PTLoad), maps[i]? = some m →
    (loadMapsLoop env conf 0 maps {}).2[i]? = some (some p) →
    OverrideRight conf (loadMaps env conf maps) m p

/-- The load address tells the executable from the rest, or the options name the file itself. -/
def FlagMatches (m : Map) : Prop :=
  (m.isExe = true ↔ env.loadVaddr m.path ≠ 0) ∨
    (∀ s, conf.symbolPath = some s → s = m.path) ∧ ∀ d, conf.debuginfoPath = some d → d = m.path

theorem getD_eq_iff {α : Type} (o : Option α) (a : α) : o.getD a = a ↔ ∀ b, o = some b → b = a := by
  cases o <;> simp

theorem overrideRight_table {c : BFDCache} (m : Map) {p : PTLoad} {st : SymbolTable}
    (table : c.table p = some st) : OverrideRight conf c m p ↔
      (p.isExe = true → (∀ s, conf.symbolPath = some s → st.bfdInfo.file = s) ∧
        ∀ d, conf.debuginfoPath = some d → st.bfdInfo.debugFile = d) ∧
      (p.isExe = false → st.bfdInfo.file = m.path ∧ st.bfdInfo.debugFile = m.path) := by
  have unique {st' : SymbolTable} (other : c.table p = some st') : st' = st :=
    Option.some.inj (other.symm.trans table)
  constructor
  · rintro ⟨exe, library⟩
    constructor
    · intro isExe
      obtain ⟨st', other, right⟩ := exe isExe
      exact unique other ▸ right
    · intro isLibrary
      obtain ⟨st', other, right⟩ := library isLibrary
      exact unique other ▸ right
  · rintro ⟨exe, library⟩
    exact ⟨fun isExe => ⟨st, table, exe isExe⟩, fun isLibrary => ⟨st, table, library isLibrary⟩⟩

theorem overrideRight_iff {c : BFDCache} {m : Map} {p : PTLoad} (flag : p.isExe = m.isExe)
    {st : SymbolTable} (table : c.table p = some st) {abfd : Option Bfd}
    (info : st.bfdInfo = { newInfo conf m.path (env.loadVaddr m.path) with abfd }) :
    OverrideRight conf c m p ↔ FlagMatches env conf m := by
  rw [overrideRight_table conf m table, flag]
  by_cases placed : env.loadVaddr m.path ≠ 0
  · rw [newInfo, if_pos placed] at info
    have file : st.bfdInfo.file = conf.symbolPath.getD m.path := congrArg BFDInfo.file info
    have debug : st.bfdInfo.debugFile = conf.debuginfoPath.getD m.path :=
      congrArg BFDInfo.debugFile info
    rw [file, debug]
    cases exe : m.isExe with
    | true =>
      constructor
      · exact fun _ => Or.inl ⟨fun _ => placed, fun _ => exe⟩
      · refine fun _ => ⟨fun _ => ⟨?_, ?_⟩, fun library => Bool.noConfusion library⟩
        · intro s set
          rw [set]
          rfl
        · intro d set
          rw [set]
          rfl
    | false =>
      constructor
      · rintro ⟨_, library⟩
        obtain ⟨fileOwn, debugOwn⟩ := library rfl
        exact Or.inr ⟨(getD_eq_iff _ _).mp fileOwn, (getD_eq_iff _ _).mp debugOwn⟩
      · rintro (agrees | ⟨own, ownDebug⟩)
        · exact absurd (agrees.mpr placed) (by simp [exe])
        · exact ⟨fun isExe => Bool.noConfusion isExe,
            fun _ => ⟨(getD_eq_iff _ _).mpr own, (getD_eq_iff _ _).mpr ownDebug⟩⟩
  · rw [newInfo, if_neg placed] at info
    have file : st.bfdInfo.file = m.path := congrArg BFDInfo.file info
    have debug : st.bfdInfo.debugFile = m.path := congrArg BFDInfo.debugFile info
    rw [file, debug]
    cases exe : m.isExe with
    | true =>
      constructor
      · rintro ⟨isExe, _⟩
        obtain ⟨symbol, debuginfo⟩ := isExe rfl
        exact Or.inr ⟨fun s set => (symbol s set).symm, fun d set => (debuginfo d set).symm⟩
      · rintro (agrees | ⟨own, ownDebug⟩)
        · exact absurd (agrees.mp exe) placed
        · exact ⟨fun _ => ⟨fun s set => (own s set).symm, fun d set => (ownDebug d set).symm⟩,
            fun library => Bool.noConfusion library⟩
    | false =>
      constructor
      · exact fun _ => Or.inl ⟨fun isExe => Bool.noConfusion (exe.symm.trans isExe),
          fun nonzero => absurd nonzero placed⟩
      · exact fun _ => ⟨fun isExe => Bool.noConfusion isExe, fun _ => ⟨rfl, rfl⟩⟩

theorem calls_getElem? (maps : List Map) (i : Nat) :
    (env.calls maps 0)[i]? = maps[i]?.map (env.call i) := by
  rw [LoadEnv.calls, List.getElem?_map, List.getElem?_zipIdx, Nat.zero_add]
  cases maps[i]? <;> rfl

/-- The pt_load of a map, whichever call built the table for its path. -/
theorem loadMapsLoop_table (parse : conf.noParse = false) {maps : List Map} {i : Nat} {m : Map}
    {p : PTLoad} (here : maps[i]? = some m)
    (created : (loadMapsLoop env conf 0 maps {}).2[i]? = some (some p)) :
    p.isExe = m.isExe ∧ ∃ st, (loadMaps env conf maps).table p = some st ∧
      ∃ abfd, st.bfdInfo = { newInfo conf m.path (env.loadVaddr m.path) with abfd } := by
  have store := createAll_store conf env.sortSyms true (env.calls maps 0)
  rw [loadMapsLoop_calls, parse] at created
  have member : (env.call i m, some p) ∈
      (env.calls maps 0).zip (createAll conf env.sortSyms true {} (env.calls maps 0)).2 := by
    apply List.mem_of_getElem? (i := i)
    rw [List.getElem?_zip_eq_some, calls_getElem?, here]
    exact ⟨rfl, created⟩
  obtain ⟨st, found, shape⟩ := store.created _ member p rfl
  have stored := Assoc.find_mem found
  obtain ⟨k, index, _⟩ := (store.loaded rfl).stored _ stored
  obtain rfl : st = some k := index
  obtain ⟨t, table, d, hd, file, abfd, info⟩ := store.infos _ stored k rfl
  rw [shape]
  refine ⟨rfl, t, ?_, some abfd, ?_⟩
  · rw [loadMaps_calls, parse]
    exact table
  · obtain ⟨j, inside, same⟩ := List.getElem_of_mem (List.of_mem_zip hd).1
    have call : (env.calls maps 0)[j]? = some d.1 := List.getElem?_eq_some_iff.mpr ⟨inside, same⟩
    rw [calls_getElem?] at call
    obtain ⟨m', _, named⟩ := Option.map_eq_some_iff.mp call
    rw [← named] at file info
    have samePath : m'.path = m.path := file
    rw [info, ← samePath]
    rfl

/-- The i-th map gets a pt_load: its path opened in its own call or in an earlier one. -/
def OpensBy (maps : List Map) (i : Nat) (m : Map) : Prop :=
  ∃ (j : Nat) (m' : Map), j ≤ i ∧ maps[j]? = some m' ∧ m'.path = m.path ∧
    (env.openBfd j (env.symbolFile conf m'.path)).isSome = true

theorem call_opens (j : Nat) (m : Map) :
    (env.call j m).Opens conf ↔ (env.openBfd j (env.symbolFile conf m.path)).isSome = true := by
  have file : ((env.call j m).info conf).file = env.symbolFile conf m.path := by
    rw [LoadEnv.symbolFile, CreateCall.info, newInfo]
    change (if env.loadVaddr m.path ≠ 0 then _ else _ : BFDInfo).file = _
    by_cases placed : env.loadVaddr m.path ≠ 0
    · rw [if_pos placed, if_pos placed]
      rfl
    · rw [if_neg placed, if_neg placed]
      rfl
  rw [CreateCall.Opens, file]
  rfl

theorem loadMapsLoop_some_iff (parse : conf.noParse = false) {maps : List Map} {i : Nat} {m : Map}
    (here : maps[i]? = some m) :
    (∃ p, (loadMapsLoop env conf 0 maps {}).2[i]? = some (some p)) ↔ OpensBy env conf maps i m := by
  have call : (env.calls maps 0)[i]? = some (env.call i m) := by
    rw [calls_getElem?, here]
    rfl
  obtain ⟨inside, same⟩ := List.getElem?_eq_some_iff.mp call
  have split : env.calls maps 0 =
      (env.calls maps 0).take i ++ env.call i m :: (env.calls maps 0).drop (i + 1) := by
    rw [← same, ← List.drop_eq_getElem_cons inside, List.take_append_drop]
  have before : ((env.calls maps 0).take i).length = i := by
    rw [List.length_take]
    omega
  have some_iff := createAll_some_iff conf env.sortSyms ((env.calls maps 0).take i)
    ((env.calls maps 0).drop (i + 1)) (env.call i m)
  rw [← split, before, ← same, List.take_append_getElem inside, same] at some_iff
  rw [loadMapsLoop_calls, parse]
  refine some_iff.trans ?_
  constructor
  · rintro ⟨call', member, file, opens⟩
    obtain ⟨j, reached⟩ := List.mem_iff_getElem?.mp member
    have early : j < i + 1 := by
      have bound := (List.getElem?_eq_some_iff.mp reached).1
      rw [List.length_take] at bound
      omega
    rw [List.getElem?_take_of_lt early, calls_getElem?] at reached
    obtain ⟨m', found, rfl⟩ := Option.map_eq_some_iff.mp reached
    exact ⟨j, m', by omega, found, file, (call_opens env conf j m').mp opens⟩
  · rintro ⟨j, m', upTo, found, path, opens⟩
    refine ⟨env.call j m', ?_, path, (call_opens env conf j m').mpr opens⟩
    apply List.mem_of_getElem? (i := j)
    rw [List.getElem?_take_of_lt (by omega), calls_getElem?, found]
    rfl

/-- The overrides hit the executable and nothing else exactly when, for each map that gets a
pt_load, the load address of its path agrees with its flag. -/
theorem overrides_right_iff (parse : conf.noParse = false) (maps : List Map) :
    OverridesRight env conf maps ↔
      ∀ (i : Nat) (m : Map), maps[i]? = some m → OpensBy env conf maps i m →
        FlagMatches env conf m := by
  constructor
  · intro right i m here opens
    obtain ⟨p, created⟩ := (loadMapsLoop_some_iff env conf parse here).mpr opens
    obtain ⟨flag, st, table, abfd, info⟩ := loadMapsLoop_table env conf parse here created
    exact (overrideRight_iff env conf flag table info).mp (right i m p here created)
  · intro agrees i m p here created
    obtain ⟨flag, st, table, abfd, info⟩ := loadMapsLoop_table env conf parse here created
    have opens := (loadMapsLoop_some_iff env conf parse here).mp ⟨p, created⟩
    exact (overrideRight_iff env conf flag table info).mpr (agrees i m here opens)

end Overrides

/-- Text at 0x1000 behind a read-only segment, as linkers lay out libraries too. -/
def separateCode : List Phdr :=
  [{ pType := ptLoadType, pFlags := 4, pOffset := 0, pVaddr := 0, pFilesz := 0x1000,
     pMemsz := 0x1000 },
   { pType := ptLoadType, pFlags := 5, pOffset := 0x1000, pVaddr := 0x1000, pFilesz := 0x1000,
     pMemsz := 0x1000 }]

/-- A program that is mapped twice and linked so, and two libraries linked at 0, one of which does not
open. -/
def mixedMaps : List Map :=
  [{ path := ['/', 'x'], start := 0x401000, end_ := 0x402000, isExe := true },
   { path := ['/', 'x'], start := 0x500000, end_ := 0x501000, isExe := true },
   { path := ['/', 'l'], start := 0x7f0000000000, end_ := 0x7f0000001000, isExe := false },
   { path := ['/', 'n'], start := 0x7f0000100000, end_ := 0x7f0000101000, isExe := false }]

def mixedLoads : LoadEnv :=
  { bareEnv [] with
    elf := fun path => .headers (if path = ['/', 'x'] then separateCode else [])
    openBfd := fun i file => if file = ['/', 'l'] then none else (bareEnv []).openBfd i file }

/-- -s /b -d /d name a stripped program's symbols and lines. -/
def bothPaths : Config := { symbolPath := some ['/', 'b'], debuginfoPath := some ['/', 'd'] }

theorem overrides_right_iff_library : OverridesRight mixedLoads bothPaths mixedMaps := by
  refine (overrides_right_iff mixedLoads bothPaths rfl mixedMaps).mpr fun i m here _ => Or.inl ?_
  have all : ∀ m ∈ mixedMaps, (m.isExe = true ↔ mixedLoads.loadVaddr m.path ≠ 0) := by decide
  exact all m (List.mem_of_getElem? here)

/-- A library laid out so is symbolised with the binary given by -s. -/
theorem library_overridden :
    ¬ OverridesRight (bareEnv separateCode) { symbolPath := some ['/', 'b'] } [libraryMap] := by
  intro right
  have library := (right 0 libraryMap ⟨0x1000, 0x2000, false, some 0, 0x1000⟩ rfl (by decide)).library rfl
  obtain ⟨st, table, file, _⟩ := library
  have stored : ((loadMaps (bareEnv separateCode) { symbolPath := some ['/', 'b'] } [libraryMap]).table
      ⟨0x1000, 0x2000, false, some 0, 0x1000⟩).map (fun st => st.bfdInfo.file) = some ['/', 'b'] := by
    decide
  rw [table, Option.map_some, file] at stored
  exact absurd stored (by decide)

end Obstack
