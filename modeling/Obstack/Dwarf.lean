import Obstack.DebugFile
import Obstack.Lib.Loops

/-! What addr2line answers: like one DWARF context for the whole of objs_, a fault of which is a
lookup that is left through siglongjmp. -/
namespace Obstack
open Loops

/-! ## One context -/

/-- The two queries of a DWARF context; none is a fault. -/
structure DWARFContext where
  getDIEsForAddress : ULong → Option Bool
  getLineInfoForAddress : ULong → Option (Option LineInfo)

/-- The result and the line info it leaves behind. -/
def lookup (ctx : DWARFContext) (address : ULong) (lineInfo : LineInfo) :
    Option (Bool × LineInfo) :=
  match ctx.getDIEsForAddress address with
  | none => none
  | some false => some (false, lineInfo)
  | some true =>
    match ctx.getLineInfoForAddress address with
    | none => none
    | some none => some (false, lineInfo)
    | some (some info) => some (true, info)

/-- A faulting lookup is abandoned, its entry left alone. -/
def lookupAt (ctx : DWARFContext) (addrs : List ULong) (lineInfos : List LineInfo) (i : Nat) :
    List LineInfo :=
  match addrs[i]?, lineInfos[i]? with
  | some addr, some lineInfo =>
    match lookup ctx addr lineInfo with
    | some (_, lineInfo) => lineInfos.set i lineInfo
    | none => lineInfos
  | _, _ => lineInfos

def dumpObjectFile (ctx : DWARFContext) (addrs : List ULong) (lineInfos : List LineInfo) :
    List LineInfo :=
  (List.range addrs.length).foldl (lookupAt ctx addrs) lineInfos

def addr2line (ctx : DWARFContext) (addrs : List ULong) (lineInfos : List LineInfo) :
    List LineInfo :=
  if addrs.length ≠ lineInfos.length then lineInfos else dumpObjectFile ctx addrs lineInfos

def looked (ctx : DWARFContext) (address : ULong) (lineInfo : LineInfo) : LineInfo :=
  match lookup ctx address lineInfo with
  | some (_, lineInfo) => lineInfo
  | none => lineInfo

theorem lookupAt_eq (ctx : DWARFContext) (addrs : List ULong) (lineInfos : List LineInfo) (i : Nat) :
    lookupAt ctx addrs lineInfos i = update (looked ctx) addrs lineInfos i := by
  unfold lookupAt update looked
  cases addrs[i]? with
  | none => rfl
  | some addr =>
    cases stored : lineInfos[i]? with
    | none => rfl
    | some lineInfo =>
      obtain ⟨bound, rfl⟩ := List.getElem?_eq_some_iff.mp stored
      dsimp only
      cases lookup ctx addr lineInfos[i] with
      | none => exact (List.set_getElem_self bound).symm
      | some result => rfl

/-! ## What is met on the way -/

/-- An object, or what ends the process. -/
inductive Met where
  | object (obj : DebugObject)
  | exit
  | crash (sig : Fault)

def handleMet (addrs : List ULong) (s : LineState) : Met → Except Death LineState
  | .object obj => obj.dumpObjectFile addrs s
  | .exit => .error .exited
  | .crash sig => .error (raisedOutside s.1 sig)

def damage (damaged : Bool) : List Met := if damaged then [.exit] else []

mutual

def Binary.met : Binary → List Met
  | .unreadable => [.exit]
  | .crash sig => [.crash sig]
  | .object obj => [.object obj]
  | .universal slices => metSlices slices
  | .archive children damaged => metArchive children ++ damage damaged
  | .other => []

def metSlices : List Slice → List Met
  | [] => []
  | slice :: slices => metSlice slice ++ metSlices slices

def metSlice : Slice → List Met
  | .object obj => [.object obj]
  | .archive children damaged => metArchive children ++ damage damaged
  | .neither => []

def metArchive : List ArchiveChild → List Met
  | [] => []
  | child :: children => metChild child ++ metArchive children

def metChild : ArchiveChild → List Met
  | .unreadable => [.exit]
  | .unnamed => [.exit]
  | .member binary => binary.met

end

def metFile : Option Binary → List Met
  | none => [.exit]
  | some binary => binary.met

section Met

variable (addrs : List ULong)

theorem foldlM_damage (damaged : Bool) (s : LineState) :
    (damage damaged).foldlM (handleMet addrs) s =
      if damaged then .error .exited else .ok s := by
  cases damaged <;> rfl

theorem foldlM_single (met : Met) (s : LineState) :
    [met].foldlM (handleMet addrs) s = handleMet addrs s met := by
  simp

mutual

theorem handleBuffer_met (binary : Binary) (s : LineState) :
    handleBuffer addrs binary s = binary.met.foldlM (handleMet addrs) s := by
  cases binary with
  | unreadable => rfl
  | crash sig => rfl
  | object obj => rw [handleBuffer, Binary.met, foldlM_single, handleMet]
  | universal slices => rw [handleBuffer, Binary.met, handleSlices_met]
  | archive children damaged =>
    rw [handleBuffer, Binary.met, List.foldlM_append, handleArchive_met]
    simp only [foldlM_damage]
  | other => rfl

theorem handleSlices_met (slices : List Slice) (s : LineState) :
    handleSlices addrs slices s = (metSlices slices).foldlM (handleMet addrs) s := by
  cases slices with
  | nil => rfl
  | cons slice slices =>
    rw [handleSlices, metSlices, List.foldlM_append, handleSlice_met]
    congr 1
    funext s
    exact handleSlices_met slices s

theorem handleSlice_met (slice : Slice) (s : LineState) :
    handleSlice addrs slice s = (metSlice slice).foldlM (handleMet addrs) s := by
  cases slice with
  | object obj => rw [handleSlice, metSlice, foldlM_single, handleMet]
  | archive children damaged =>
    rw [handleSlice, metSlice, List.foldlM_append, handleArchive_met]
    simp only [foldlM_damage]
  | neither => rfl

theorem handleArchive_met (children : List ArchiveChild) (s : LineState) :
    handleArchive addrs children s = (metArchive children).foldlM (handleMet addrs) s := by
  cases children with
  | nil => rfl
  | cons child children =>
    rw [handleArchive, metArchive, List.foldlM_append, handleChild_met]
    congr 1
    funext s
    exact handleArchive_met children s

theorem handleChild_met (child : ArchiveChild) (s : LineState) :
    handleChild addrs child s = (metChild child).foldlM (handleMet addrs) s := by
  cases child with
  | unreadable => rfl
  | unnamed => rfl
  | member binary => rw [handleChild, metChild, handleBuffer_met]

end

end Met

/-! ## One context for all of objs_ -/

def Ran.outcome {α : Type} : Ran α → Option α
  | .back a => some a
  | .raised _ => none

/-- The object with its signals as faults that are left through siglongjmp. -/
def DebugObject.context (obj : DebugObject) : DWARFContext where
  getDIEsForAddress address := (obj.getDIEsForAddress address).outcome
  getLineInfoForAddress address := (obj.getLineInfoForAddress address).outcome

/-- The line that the two queries give: there are DIEs at the address, and a line. -/
def DebugObject.known (obj : DebugObject) (address : ULong) : Option LineInfo :=
  match obj.getDIEsForAddress address, obj.getLineInfoForAddress address with
  | .back true, .back info => info
  | _, _ => none

/-- The last object that knows the address. -/
def lastKnown (objs : List DebugObject) (address : ULong) : Option LineInfo :=
  objs.reverse.findSome? fun obj => obj.known address

def merged (objs : List DebugObject) : DWARFContext where
  getDIEsForAddress address := some (lastKnown objs address).isSome
  getLineInfoForAddress address := some (lastKnown objs address)

/-- Signals that fall into the loop over the addresses, and no others than those of SIG_SET. -/
structure DebugObject.Harmless (obj : DebugObject) (addrs : List ULong) : Prop where
  loads : obj.loadRegisterInfo = .back ()
  caught : ∀ address ∈ addrs, ∀ sig, obj.lookup address {} = .raised sig → sig ∈ sigSet

def Met.Harmless (addrs : List ULong) : Met → Prop
  | .object obj => obj.Harmless addrs
  | .exit => False
  | .crash _ => False

def Met.object? : Met → Option DebugObject
  | .object obj => some obj
  | _ => none

section Lookup

variable (obj : DebugObject) (address : ULong)

theorem looked_context (lineInfo : LineInfo) :
    looked obj.context address lineInfo = (obj.known address).getD lineInfo := by
  simp only [looked, Obstack.lookup, DebugObject.context, DebugObject.known]
  cases obj.getDIEsForAddress address with
  | raised sig => rfl
  | back found =>
    cases found with
    | false => rfl
    | true =>
      cases obj.getLineInfoForAddress address with
      | raised sig => rfl
      | back info => cases info <;> rfl

theorem looked_merged (objs : List DebugObject) (lineInfo : LineInfo) :
    looked (merged objs) address lineInfo = (lastKnown objs address).getD lineInfo := by
  simp only [looked, Obstack.lookup, merged]
  cases lastKnown objs address <;> rfl

theorem lastKnown_cons (objs : List DebugObject) :
    lastKnown (obj :: objs) address = (lastKnown objs address).or (obj.known address) := by
  simp [lastKnown, List.findSome?_append]

theorem lookup_raised {sig : Fault} (raised : obj.lookup address {} = .raised sig) :
    obj.known address = none := by
  simp only [DebugObject.lookup, DebugObject.known] at raised ⊢
  cases dies : obj.getDIEsForAddress address with
  | raised sig => rfl
  | back found =>
    rw [dies] at raised
    cases found with
    | false => rfl
    | true =>
      cases line : obj.getLineInfoForAddress address with
      | raised sig => rfl
      | back info =>
        rw [line] at raised
        cases info <;> cases raised

/-- How a lookup goes: what it writes does not depend on what was there before. -/
theorem lookup_cases (lineInfo : LineInfo) :
    (∃ sig, obj.lookup address {} = .raised sig ∧ obj.lookup address lineInfo = .raised sig) ∨
      ∃ found, (∃ info, obj.lookup address {} = .back (found, info)) ∧
        obj.lookup address lineInfo = .back (found, looked obj.context address lineInfo) := by
  rw [looked_context]
  simp only [DebugObject.known, DebugObject.lookup]
  cases obj.getDIEsForAddress address with
  | raised sig => exact Or.inl ⟨sig, rfl, rfl⟩
  | back found =>
    cases found with
    | false => exact Or.inr ⟨false, ⟨_, rfl⟩, rfl⟩
    | true =>
      cases obj.getLineInfoForAddress address with
      | raised sig => exact Or.inl ⟨sig, rfl, rfl⟩
      | back info =>
        cases info with
        | none => exact Or.inr ⟨false, ⟨_, rfl⟩, rfl⟩
        | some info => exact Or.inr ⟨true, ⟨_, rfl⟩, rfl⟩

end Lookup

section Dump

variable {obj : DebugObject} {addrs : List ULong} {s : LineState} {i : Nat} {address : ULong}
  (here : addrs[i]? = some address) (aligned : addrs.length = s.2.length)
include here aligned

theorem entry_there : ∃ lineInfo, s.2[i]? = some lineInfo := by
  obtain ⟨inside, _⟩ := List.getElem?_eq_some_iff.mp here
  exact ⟨_, List.getElem?_eq_getElem (aligned ▸ inside)⟩

theorem lookupAt_caught
    (caught : ∀ sig, obj.lookup address {} = .raised sig → sig ∈ sigSet) :
    obj.lookupAt addrs s i = .ok (.faultTolerant, update (looked obj.context) addrs s.2 i) := by
  obtain ⟨lineInfo, entry⟩ := entry_there here aligned
  simp only [DebugObject.lookupAt, update, here, entry]
  rcases lookup_cases obj address lineInfo with ⟨sig, fresh, raised⟩ | ⟨found, _, back⟩
  · have unknown : obj.known address = none := lookup_raised obj address fresh
    have jump : jumps .faultTolerant sig = true := by simp [jumps, caught sig fresh]
    obtain ⟨inside, rfl⟩ := List.getElem?_eq_some_iff.mp entry
    rw [raised, looked_context, unknown, Option.getD_none, List.set_getElem_self]
    simp only [jump, if_true]
  · rw [back]

theorem lookupAt_killed {sig : Fault} (raised : obj.lookup address {} = .raised sig)
    (other : sig ∉ sigSet) : obj.lookupAt addrs s i = .error (.killed sig) := by
  obtain ⟨lineInfo, entry⟩ := entry_there here aligned
  simp only [DebugObject.lookupAt, here, entry]
  rcases lookup_cases obj address lineInfo with ⟨sig', fresh, raised'⟩ | ⟨_, ⟨_, fresh⟩, _⟩
  · rw [fresh] at raised
    obtain rfl := Ran.raised.inj raised
    rw [raised']
    simp [jumps, other]
  · rw [fresh] at raised
    cases raised

end Dump

section Dumps

variable {obj : DebugObject} {addrs : List ULong}

theorem update_length (ctx : DWARFContext) (lineInfos : List LineInfo) (i : Nat) :
    (update (looked ctx) addrs lineInfos i).length = lineInfos.length := by
  unfold update
  split
  · exact List.length_set
  · rfl

/-- The loop over some of the indices, whose lookups raise what is caught. -/
theorem lookups_caught {is : List Nat} (inside : ∀ i ∈ is, i < addrs.length)
    (caught : ∀ address ∈ addrs, ∀ sig, obj.lookup address {} = .raised sig → sig ∈ sigSet)
    {s : LineState} (aligned : addrs.length = s.2.length) :
    ∃ handler, is.foldlM (obj.lookupAt addrs) s =
      .ok (handler, is.foldl (update (looked obj.context) addrs) s.2) := by
  induction is generalizing s with
  | nil => exact ⟨s.1, rfl⟩
  | cons i is ih =>
    obtain ⟨address, here⟩ : ∃ address, addrs[i]? = some address :=
      ⟨_, List.getElem?_eq_getElem (inside i List.mem_cons_self)⟩
    have first := lookupAt_caught here aligned (caught address (List.mem_of_getElem? here))
    obtain ⟨handler, rest⟩ := ih (fun j member => inside j (List.mem_cons_of_mem i member))
      (s := (.faultTolerant, update (looked obj.context) addrs s.2 i))
      (by rw [update_length, aligned])
    refine ⟨handler, ?_⟩
    rw [List.foldlM_cons, first]
    exact rest

/-- The first lookup that raises anything else ends the process. -/
theorem lookups_killed {is : List Nat} (inside : ∀ i ∈ is, i < addrs.length)
    (uncaught : ∃ i ∈ is, ∃ address, addrs[i]? = some address ∧
      ∃ sig, obj.lookup address {} = .raised sig ∧ sig ∉ sigSet)
    {s : LineState} (aligned : addrs.length = s.2.length) :
    ∃ sig, is.foldlM (obj.lookupAt addrs) s = .error (.killed sig) := by
  induction is generalizing s with
  | nil =>
    obtain ⟨i, member, _⟩ := uncaught
    cases member
  | cons i is ih =>
    obtain ⟨address, here⟩ : ∃ address, addrs[i]? = some address :=
      ⟨_, List.getElem?_eq_getElem (inside i List.mem_cons_self)⟩
    by_cases kills : ∃ sig, obj.lookup address {} = .raised sig ∧ sig ∉ sigSet
    · obtain ⟨sig, raised, other⟩ := kills
      refine ⟨sig, ?_⟩
      rw [List.foldlM_cons, lookupAt_killed here aligned raised other]
      rfl
    · have caught : ∀ sig, obj.lookup address {} = .raised sig → sig ∈ sigSet := by
        intro sig raised
        by_contra other
        exact kills ⟨sig, raised, other⟩
      have later : ∃ j ∈ is, ∃ address, addrs[j]? = some address ∧
          ∃ sig, obj.lookup address {} = .raised sig ∧ sig ∉ sigSet := by
        obtain ⟨j, member, other, there, raises⟩ := uncaught
        rcases List.mem_cons.mp member with rfl | member
        · rw [here] at there
          obtain rfl := Option.some.inj there
          exact absurd raises kills
        · exact ⟨j, member, other, there, raises⟩
      obtain ⟨sig, rest⟩ := ih (fun j member => inside j (List.mem_cons_of_mem i member)) later
        (s := (.faultTolerant, update (looked obj.context) addrs s.2 i))
        (by rw [update_length, aligned])
      refine ⟨sig, ?_⟩
      rw [List.foldlM_cons, lookupAt_caught here aligned caught]
      exact rest

/-- What dumpObjectFile does in a process whose handler is the default. -/
theorem dumpObjectFile_harmless (harmless : obj.Harmless addrs) {handler : SignalHandler}
    {lineInfos : List LineInfo} (aligned : addrs.length = lineInfos.length) :
    obj.dumpObjectFile addrs (handler, lineInfos) =
      .ok (handler, List.zipWith (looked obj.context) addrs lineInfos) := by
  have inside : ∀ i ∈ List.range addrs.length, i < addrs.length := fun i => List.mem_range.mp
  obtain ⟨last, loop⟩ := lookups_caught inside harmless.caught
    (s := (handler, lineInfos)) aligned
  rw [DebugObject.dumpObjectFile, harmless.loads]
  simp only [loop, ← update_loop (looked obj.context) addrs lineInfos aligned]
  rfl

theorem dumpObjectFile_harmful (harmful : ¬ obj.Harmless addrs) {lineInfos : List LineInfo}
    (aligned : addrs.length = lineInfos.length) :
    ∃ sig, obj.dumpObjectFile addrs (.default, lineInfos) = .error (.killed sig) := by
  unfold DebugObject.dumpObjectFile
  cases loads : obj.loadRegisterInfo with
  | raised sig => exact ⟨sig, by simp [raisedOutside, jumps]⟩
  | back u =>
    have inside : ∀ i ∈ List.range addrs.length, i < addrs.length := fun i => List.mem_range.mp
    have uncaught : ∃ i ∈ List.range addrs.length, ∃ address, addrs[i]? = some address ∧
        ∃ sig, obj.lookup address {} = .raised sig ∧ sig ∉ sigSet := by
      by_contra all
      apply harmful
      refine ⟨loads, fun address member sig raised => ?_⟩
      by_contra other
      obtain ⟨i, bound, there⟩ := List.getElem_of_mem member
      exact all ⟨i, List.mem_range.mpr bound, address,
        List.getElem?_eq_some_iff.mpr ⟨bound, there⟩, sig, raised, other⟩
    obtain ⟨sig, loop⟩ := lookups_killed inside uncaught (s := (.default, lineInfos)) aligned
    exact ⟨sig, by simp only [loop]; rfl⟩

end Dumps

section Walk

variable {addrs : List ULong}

theorem zipWith_looked (objs : List DebugObject) (obj : DebugObject) (lineInfos : List LineInfo) :
    List.zipWith (looked (merged objs)) addrs (List.zipWith (looked obj.context) addrs lineInfos) =
      List.zipWith (looked (merged (obj :: objs))) addrs lineInfos := by
  induction addrs generalizing lineInfos with
  | nil => rfl
  | cons address addrs ih =>
    cases lineInfos with
    | nil => rfl
    | cons lineInfo lineInfos =>
      simp only [List.zipWith_cons_cons, ih]
      rw [looked_merged, looked_context, looked_merged, lastKnown_cons]
      cases lastKnown objs address <;> rfl

theorem zipWith_unknown {lineInfos : List LineInfo} (aligned : addrs.length = lineInfos.length) :
    List.zipWith (looked (merged [])) addrs lineInfos = lineInfos := by
  induction addrs generalizing lineInfos with
  | nil => exact (List.length_eq_zero_iff.mp aligned.symm).symm
  | cons address addrs ih =>
    cases lineInfos with
    | nil => rfl
    | cons lineInfo lineInfos =>
      rw [List.zipWith_cons_cons, looked_merged, ih (Nat.succ.inj aligned)]
      rfl

theorem mets_harmless {mets : List Met} (harmless : ∀ met ∈ mets, met.Harmless addrs)
    {lineInfos : List LineInfo} (aligned : addrs.length = lineInfos.length) :
    mets.foldlM (handleMet addrs) (.default, lineInfos) =
      .ok (.default,
        List.zipWith (looked (merged (mets.filterMap Met.object?))) addrs lineInfos) := by
  induction mets generalizing lineInfos with
  | nil => rw [List.filterMap_nil, zipWith_unknown aligned]; rfl
  | cons met mets ih =>
    have first := harmless met List.mem_cons_self
    cases met with
    | exit => cases first
    | crash sig => cases first
    | object obj =>
      have kept : addrs.length = (List.zipWith (looked obj.context) addrs lineInfos).length := by
        simp [← aligned]
      have rest := ih (fun x member => harmless x (List.mem_cons_of_mem _ member)) kept
      rw [List.foldlM_cons, handleMet, dumpObjectFile_harmless first aligned]
      rw [zipWith_looked] at rest
      exact rest

/-- The handler is the default whenever foreign code runs outside the loop. -/
theorem mets_harmful {mets : List Met} (harmful : ∃ met ∈ mets, ¬ met.Harmless addrs)
    {lineInfos : List LineInfo} (aligned : addrs.length = lineInfos.length) :
    ∃ d, mets.foldlM (handleMet addrs) (.default, lineInfos) = .error d ∧ d.defined = true := by
  induction mets generalizing lineInfos with
  | nil =>
    obtain ⟨met, member, _⟩ := harmful
    cases member
  | cons met mets ih =>
    cases met with
    | exit => exact ⟨.exited, rfl, rfl⟩
    | crash sig =>
      have died : raisedOutside .default sig = .killed sig := by simp [raisedOutside, jumps]
      refine ⟨.killed sig, ?_, rfl⟩
      rw [List.foldlM_cons, handleMet, died]
      rfl
    | object obj =>
      by_cases first : obj.Harmless addrs
      · have later : ∃ met ∈ mets, ¬ met.Harmless addrs := by
          obtain ⟨met, member, harm⟩ := harmful
          rcases List.mem_cons.mp member with rfl | member
          · exact absurd first harm
          · exact ⟨met, member, harm⟩
        have kept : addrs.length = (List.zipWith (looked obj.context) addrs lineInfos).length := by
          simp [← aligned]
        obtain ⟨d, rest, defined⟩ := ih later kept
        refine ⟨d, ?_, defined⟩
        rw [List.foldlM_cons, handleMet, dumpObjectFile_harmless first aligned]
        exact rest
      · obtain ⟨sig, died⟩ := dumpObjectFile_harmful first aligned
        refine ⟨.killed sig, ?_, rfl⟩
        rw [List.foldlM_cons, handleMet, died]
        rfl

end Walk

def metFiles (objs : List (Option Binary)) : List Met := objs.flatMap metFile

theorem handleFile_met (addrs : List ULong) (file : Option Binary) (s : LineState) :
    handleFile addrs file s = (metFile file).foldlM (handleMet addrs) s := by
  cases file with
  | none => rfl
  | some binary => exact handleBuffer_met addrs binary s

theorem handleFiles_met (addrs : List ULong) (objs : List (Option Binary)) (s : LineState) :
    objs.foldlM (fun s file => handleFile addrs file s) s =
      (metFiles objs).foldlM (handleMet addrs) s := by
  induction objs generalizing s with
  | nil => rfl
  | cons file objs ih =>
    rw [List.foldlM_cons, handleFile_met, metFiles, List.flatMap_cons, List.foldlM_append]
    congr 1
    funext s
    exact ih s

section Lines

variable {objs : List (Option Binary)} {addrs : List ULong} {lineInfos : List LineInfo}
  (aligned : addrs.length = lineInfos.length)
include aligned

theorem llvmAddr2line_harmless (harmless : ∀ met ∈ metFiles objs, met.Harmless addrs) :
    llvmAddr2line objs addrs (.default, lineInfos) = .ok (.default,
      List.zipWith (looked (merged ((metFiles objs).filterMap Met.object?))) addrs lineInfos) := by
  rw [llvmAddr2line, if_neg (not_not_intro aligned), handleFiles_met]
  exact mets_harmless harmless aligned

theorem llvmAddr2line_harmful (harmful : ¬ (∀ met ∈ metFiles objs, met.Harmless addrs)) :
    ∃ d, llvmAddr2line objs addrs (.default, lineInfos) = .error d ∧ d.defined = true := by
  rw [llvmAddr2line, if_neg (not_not_intro aligned), handleFiles_met]
  simp only [not_forall] at harmful
  obtain ⟨met, member, harm⟩ := harmful
  exact mets_harmful ⟨met, member, harm⟩ aligned

theorem addr2line_eq (ctx : DWARFContext) :
    addr2line ctx addrs lineInfos = List.zipWith (looked ctx) addrs lineInfos := by
  have step : lookupAt ctx addrs = update (looked ctx) addrs := funext₂ (lookupAt_eq ctx addrs)
  rw [addr2line, if_neg (not_not_intro aligned), dumpObjectFile, step, update_loop _ _ _ aligned]

end Lines

/-- The lookup comes back exactly when every member of every file can be read and signals are
raised in lookups only, and by what SIG_SET lists. Then it answers like the one context in which
the last object that knows an address has the word, and leaves the default handler; else the
process has ended, and never in a jump to a frame that is gone. -/
theorem llvmAddr2line_merged (objs : List (Option Binary)) (addrs : List ULong)
    (lineInfos : List LineInfo) (aligned : addrs.length = lineInfos.length) :
    ((∀ met ∈ metFiles objs, met.Harmless addrs) →
      llvmAddr2line objs addrs (.default, lineInfos) = .ok (.default,
        addr2line (merged ((metFiles objs).filterMap Met.object?)) addrs lineInfos)) ∧
    (¬ (∀ met ∈ metFiles objs, met.Harmless addrs) →
      ∃ d, llvmAddr2line objs addrs (.default, lineInfos) = .error d ∧ d ≠ .staleJump) := by
  constructor
  · intro harmless
    rw [addr2line_eq aligned]
    exact llvmAddr2line_harmless aligned harmless
  · intro harmful
    obtain ⟨d, died, defined⟩ := llvmAddr2line_harmful aligned harmful
    refine ⟨d, died, ?_⟩
    rintro rfl
    cases defined

/-- An object whose second query faults. -/
def faultingObject : DebugObject where
  loadRegisterInfo := .back ()
  getDIEsForAddress _ := .back true
  getLineInfoForAddress _ := .raised .SIGSEGV

def knowingObject : DebugObject where
  loadRegisterInfo := .back ()
  getDIEsForAddress _ := .back true
  getLineInfoForAddress _ := .back (some { filename := ['a', '.', 'c'], line := 7 })

/-- An archive of both. -/
def debugArchive : Option Binary :=
  some (.archive [.member (.object knowingObject), .member (.object faultingObject)] false)

theorem llvmAddr2line_merged_archive :
    ((∀ met ∈ metFiles [debugArchive], met.Harmless [0x401000]) →
      llvmAddr2line [debugArchive] [0x401000] (.default, [{}]) = .ok (.default,
        addr2line (merged ((metFiles [debugArchive]).filterMap Met.object?)) [0x401000] [{}])) ∧
    (¬ (∀ met ∈ metFiles [debugArchive], met.Harmless [0x401000]) →
      ∃ d, llvmAddr2line [debugArchive] [0x401000] (.default, [{}]) = .error d ∧ d ≠ .staleJump) :=
  llvmAddr2line_merged [debugArchive] [0x401000] [{}] rfl

/-- A fault in one object leaves the line of the other alone. -/
example : llvmAddr2line [debugArchive] [0x401000] (.default, [{}]) =
    .ok (.default, [{ filename := ['a', '.', 'c'], line := 7 }]) := rfl

end Obstack
