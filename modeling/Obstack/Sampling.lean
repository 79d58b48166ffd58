import Mathlib.Logic.Function.Basic
import Obstack.Aggregate
import Obstack.Capture

/-! What a visit leaves in its task. The loop over the frames is written out over the memory
that starts at addrs_; what it stores is the longest prefix of the registers it could read,
and what a task gets depends on the calls made for it and on no other. -/
namespace Obstack
open CText

/-- The words from addrs_ on, those of n_addrs_ and bt_ included, and the count. -/
structure Frames where
  mem : Nat → ULong
  nAddrs : Nat

/-- ARRAYSIZE(t->addrs_) -/
def fLimit : Nat := 256

/-- The do-while loop: a store, then a condition that counts it and takes the next step. -/
def frameLoop (w : World) : Nat → Child → Frames → Child × Frames
  | 0, s, f => (s, f)
  | fuel + 1, s, f =>
    let (rc, uip) := w.getReg s.trace.length
    let s := { s.log .getReg with rc := rc }
    if rc < 0 then (s, f)
    else
      let f := { mem := Function.update f.mem f.nAddrs uip, nAddrs := f.nAddrs + 1 }
      if f.nAddrs < fLimit then
        let rc := w.unwStep s.trace.length
        let s := { s.log .unwStep with rc := rc }
        if rc > 0 then frameLoop w fuel s f else (s, f)
      else (s, f)

def taskCb (thread : Int × Str) : Task := { tid := thread.1, tname := thread.2.take 32, addrs := [] }

/-! ## The frames of one stack -/

section Frames

variable (w : World)

/-- The k-th register read and the step before it, counted from the first read on. -/
def reads (now k : Nat) : Bool :=
  0 ≤ (w.getReg (now + 2 * k)).1 && (k = 0 || 0 < w.unwStep (now + 2 * k - 1))

/-- The instruction pointers before the first failed read, the first step that is not
positive, or the end of the array. -/
def framesFrom (now room : Nat) : List ULong :=
  ((List.range room).takeWhile (reads w now)).map (fun k => (w.getReg (now + 2 * k)).2)

theorem reads_succ {now : Nat} (stepped : 0 < w.unwStep (now + 1)) (k : Nat) :
    reads w now (k + 1) = reads w (now + 2) k := by
  have time : now + 2 * (k + 1) = now + 2 + 2 * k := by omega
  cases k with
  | zero => simp [reads, stepped]
  | succ k =>
    have before : now + 2 + 2 * (k + 1) - 1 = now + 2 + 2 * k + 1 := by omega
    simp [reads, time, before]

theorem framesFrom_succ (now room : Nat) : framesFrom w now (room + 1) =
    if (w.getReg now).1 < 0 then []
    else (w.getReg now).2 :: if 0 < w.unwStep (now + 1) then framesFrom w (now + 2) room else [] := by
  have first : reads w now 0 = decide (0 ≤ (w.getReg now).1) := by simp [reads]
  rw [framesFrom, List.range_succ_eq_map, List.takeWhile_cons, List.takeWhile_map, first]
  by_cases failed : (w.getReg now).1 < 0
  · simp [failed]
  · simp only [failed, not_lt.mp failed, decide_true, if_true, if_false, List.map_cons, List.map_map]
    congr 1
    by_cases stepped : 0 < w.unwStep (now + 1)
    · have shift : reads w now ∘ Nat.succ = reads w (now + 2) := funext (reads_succ w stepped)
      rw [if_pos stepped, shift, framesFrom]
      apply List.map_congr_left
      intro k _
      have time : now + 2 * (k + 1) = now + 2 + 2 * k := by omega
      simp only [Function.comp_apply, Nat.succ_eq_add_one, time]
    · rw [if_neg stepped]
      cases room with
      | zero => rfl
      | succ room =>
        have stops : (reads w now ∘ Nat.succ) 0 = false := by simp [reads, stepped]
        rw [List.range_succ_eq_map, List.takeWhile_cons, stops]
        rfl

theorem unwind_frames (room : Nat) (s : Child) :
    (unwind w room s).2 = framesFrom w s.trace.length room := by
  induction room generalizing s with
  | zero => rfl
  | succ room ih =>
    have read : (s.log .getReg).trace.length = s.trace.length + 1 := by simp [Child.log]
    have step : ((s.log .getReg).log .unwStep).trace.length = s.trace.length + 2 := by
      simp [Child.log]
    rw [framesFrom_succ, unwind]
    by_cases failed : (w.getReg s.trace.length).1 < 0
    · simp only [failed, if_true]
    · simp only [failed, if_false]
      by_cases full : room = 0
      · subst full
        simp [framesFrom]
      · rw [if_neg full]
        by_cases stepped : 0 < w.unwStep (s.trace.length + 1)
        · have rest := ih { (s.log .getReg).log .unwStep with rc := w.unwStep (s.trace.length + 1) }
          change _ = framesFrom w ((s.log .getReg).log .unwStep).trace.length room at rest
          rw [step] at rest
          rw [if_pos stepped, ← rest]
          simp only [Child.log, List.length_append, List.length_singleton, gt_iff_lt, stepped, if_true]
        · rw [if_neg stepped]
          simp only [Child.log, List.length_append, List.length_singleton, gt_iff_lt, stepped, if_false]

end Frames

/-! ## The memory of a task -/

def storeAll (mem : Nat → ULong) (pos : Nat) : List ULong → Nat → ULong
  | [] => mem
  | uip :: rest => storeAll (Function.update mem pos uip) (pos + 1) rest

theorem storeAll_outside (mem : Nat → ULong) {pos i : Nat} (addrs : List ULong)
    (outside : i < pos ∨ pos + addrs.length ≤ i) : storeAll mem pos addrs i = mem i := by
  induction addrs generalizing mem pos with
  | nil => rfl
  | cons uip rest ih =>
    rw [List.length_cons] at outside
    rw [storeAll, ih _ (by omega), Function.update_of_ne (by omega)]

theorem storeAll_inside (mem : Nat → ULong) (pos : Nat) (addrs : List ULong) :
    (List.range addrs.length).map (fun i => storeAll mem pos addrs (pos + i)) = addrs := by
  induction addrs generalizing mem pos with
  | nil => rfl
  | cons uip rest ih =>
    rw [List.length_cons, List.range_succ_eq_map, List.map_cons, List.map_map]
    have first : storeAll mem pos (uip :: rest) (pos + 0) = uip := by
      rw [storeAll, storeAll_outside _ _ (by omega)]
      exact Function.update_self pos uip mem
    have others := ih (Function.update mem pos uip) (pos + 1)
    rw [first]
    congr 1
    refine Eq.trans ?_ others
    apply List.map_congr_left
    intro i _
    change storeAll mem pos (uip :: rest) (pos + (i + 1)) = _
    rw [storeAll, Nat.add_right_comm, ← Nat.add_assoc]

/-- The loop is the unwinding, frame for frame; it has ended before its 256th step. -/
theorem frameLoop_unwind (w : World) (fuel : Nat) (s : Child) (f : Frames) (room : f.nAddrs < fLimit)
    (enough : fLimit ≤ f.nAddrs + fuel) :
    frameLoop w fuel s f = ((unwind w (fLimit - f.nAddrs) s).1,
      { mem := storeAll f.mem f.nAddrs (unwind w (fLimit - f.nAddrs) s).2
        nAddrs := f.nAddrs + (unwind w (fLimit - f.nAddrs) s).2.length }) := by
  induction fuel generalizing s f with
  | zero => omega
  | succ fuel ih =>
    obtain ⟨left, more⟩ : ∃ left, fLimit - f.nAddrs = left + 1 := ⟨fLimit - f.nAddrs - 1, by omega⟩
    rw [frameLoop, more, unwind]
    by_cases failed : (w.getReg s.trace.length).1 < 0
    · simp only [failed, if_true]
      rfl
    · simp only [failed, if_false]
      by_cases full : left = 0
      · have last : ¬ f.nAddrs + 1 < fLimit := by omega
        simp only [full, last, if_true, if_false]
        rfl
      · have next : f.nAddrs + 1 < fLimit := by omega
        simp only [full, next, if_true, if_false]
        split
        · rw [ih _ _ next (by simp only; omega)]
          have rest : fLimit - (f.nAddrs + 1) = left := by omega
          simp only [rest, List.length_cons, storeAll]
          rw [Nat.add_assoc, Nat.add_comm 1]
        · rfl

/-! ## One visit -/

/-- How a visit ends: one of its calls fails, or its frames are read from a time on. -/
inductive Outcome where
  | attachFailed
  | waitFailed
  | uptFailed
  | sampled (now : Nat)
  deriving DecidableEq, Repr

/-- The time after the wait4 that reports the stop, if one of the tries does. -/
def stopTime (w : World) (tid : Int) : Nat → Nat → Option Nat
  | _, 0 => none
  | now, tries + 1 =>
    match w.wait4 now tid with
    | .stopped _ => some (now + 1)
    | .failed _ => none
    | .other => stopTime w tid (now + 1) tries

def outcome (w : World) (tid : Int) (now : Nat) : Outcome :=
  match w.attach now tid with
  | some _ => .attachFailed
  | none =>
    match stopTime w tid (now + 1) 10 with
    | none => .waitFailed
    | some stopped => if w.uptCreate stopped tid then .sampled (stopped + 1) else .uptFailed

def Outcome.addrs (w : World) : Outcome → List ULong
  | .sampled now => framesFrom w now fLimit
  | _ => []

/-- A call that returns -1 sets errno. -/
def World.ReportsErrno (w : World) : Prop :=
  ∀ now tid errno, w.wait4 now tid = .failed errno → errno ≠ 0

section Visit

variable {w : World}

theorem waitStop_stopTime (errnos : w.ReportsErrno) (tid : Int) (tries : Nat) (s : Child)
    (waiting : s.rc ≠ 0) :
    match stopTime w tid s.trace.length tries with
    | some stopped => (waitStop w tid tries s).rc = 0 ∧
        (waitStop w tid tries s).trace.length = stopped
    | none => (waitStop w tid tries s).rc ≠ 0 := by
  induction tries generalizing s with
  | zero => exact waiting
  | succ tries ih =>
    rw [stopTime, waitStop]
    cases result : w.wait4 s.trace.length tid with
    | failed errno => exact errnos _ _ _ result
    | stopped sig => exact ⟨rfl, by simp [waitVerdict, Child.log]⟩
    | other =>
      have rest := ih (s.log .wait) waiting
      simpa [waitVerdict, Child.log] using rest

theorem visit_addrs (errnos : w.ReportsErrno) (t : Task) (empty : t.addrs = []) (s : Child) :
    (visit w t s).2.addrs = (outcome w t.tid s.trace.length).addrs w := by
  unfold visit visitBody outcome
  cases attach : w.attach s.trace.length t.tid with
  | some errno => exact empty
  | none =>
    have waited := waitStop_stopTime errnos t.tid 10 { s.log (.attach t.tid true) with rc := -1 }
      (show (-1 : Int) ≠ 0 by decide)
    have time : (s.log (.attach t.tid true)).trace.length = s.trace.length + 1 := by simp [Child.log]
    simp only [time] at waited
    simp only [sampleBody]
    generalize waitStop w t.tid 10 { s.log (.attach t.tid true) with rc := -1 } = s' at waited
    cases stop : stopTime w t.tid (s.trace.length + 1) 10 with
    | none =>
      rw [stop] at waited
      rw [if_pos waited]
      exact empty
    | some stopped =>
      rw [stop] at waited
      obtain ⟨clear, now⟩ := waited
      rw [if_neg (not_not.mpr clear), now]
      cases created : w.uptCreate stopped t.tid with
      | false => simpa only [created, Bool.false_eq_true, if_false, Outcome.addrs] using empty
      | true =>
        have frames := unwind_frames w 256 (s'.log (.uptCreate true))
        have start : (s'.log (.uptCreate true)).trace.length = stopped + 1 := by simp [Child.log, now]
        rw [start] at frames
        simpa only [created, if_true, Outcome.addrs, fLimit] using frames

theorem visit_thread (w : World) (t : Task) (s : Child) :
    (visit w t s).2.tid = t.tid ∧ (visit w t s).2.tname = t.tname := by
  simp only [visit]
  cases (visitBody w t.tid s).2.2 with
  | none => exact ⟨rfl, rfl⟩
  | some addrs => exact ⟨rfl, rfl⟩

end Visit

/-! ## Two runs side by side -/

structure AgreeAt (w w' : World) (now now' : Nat) : Prop where
  attach : w.attach now = w'.attach now'
  wait4 : w.wait4 now = w'.wait4 now'
  uptCreate : w.uptCreate now = w'.uptCreate now'
  getReg : w.getReg now = w'.getReg now'
  unwStep : w.unwStep now = w'.unwStep now'

/-- Call for call, what happens to s until r also happens to s'. -/
def AgreeAlong (w w' : World) (s s' r : Child) : Prop :=
  ∀ d, s.trace.length + d < r.trace.length → AgreeAt w w' (s.trace.length + d) (s'.trace.length + d)

/-- Both runs have made the same calls and ended with the same rc. -/
structure Parallel (s r s' r' : Child) : Prop where
  calls : ∃ calls, r.trace = s.trace ++ calls ∧ r'.trace = s'.trace ++ calls
  rc : r'.rc = r.rc

namespace Parallel

variable {s m r s' m' r' : Child}

theorem log (s s' : Child) (e : Event) (rc : Int) :
    Parallel s { s.log e with rc := rc } s' { s'.log e with rc := rc } :=
  ⟨⟨[e], rfl, rfl⟩, rfl⟩

theorem trans (first : Parallel s m s' m') (second : Parallel m r m' r') : Parallel s r s' r' := by
  obtain ⟨calls, mid, mid'⟩ := first.calls
  obtain ⟨more, last, last'⟩ := second.calls
  refine ⟨⟨calls ++ more, ?_, ?_⟩, second.rc⟩
  · rw [last, mid, List.append_assoc]
  · rw [last', mid', List.append_assoc]

end Parallel

theorem Quietly.length {s s' : Child} (quietly : Quietly s s') : s.trace.length ≤ s'.trace.length := by
  obtain ⟨calls, _, trace, _⟩ := quietly
  rw [trace, List.length_append]
  omega

section Side

variable {w w' : World}

theorem AgreeAlong.rest {s m s' m' r : Child} (along : AgreeAlong w w' s s' r)
    (parallel : Parallel s m s' m') : AgreeAlong w w' m m' r := by
  obtain ⟨calls, mid, mid'⟩ := parallel.calls
  intro d within
  rw [mid, List.length_append, Nat.add_assoc] at within
  have agree := along (calls.length + d) within
  rwa [← Nat.add_assoc, ← Nat.add_assoc, ← List.length_append, ← List.length_append, ← mid,
    ← mid'] at agree

theorem AgreeAlong.until {s s' m r : Child} (along : AgreeAlong w w' s s' r)
    (order : m.trace.length ≤ r.trace.length) : AgreeAlong w w' s s' m :=
  fun d within => along d (Nat.lt_of_lt_of_le within order)

theorem AgreeAlong.first {s s' r : Child} (along : AgreeAlong w w' s s' r)
    (more : s.trace.length < r.trace.length) : AgreeAt w w' s.trace.length s'.trace.length :=
  along 0 more

theorem waitStop_parallel (tid : Int) (tries : Nat) {s s' : Child} (rc : s'.rc = s.rc)
    (along : AgreeAlong w w' s s' (waitStop w tid tries s)) :
    Parallel s (waitStop w tid tries s) s' (waitStop w' tid tries s') := by
  induction tries generalizing s s' with
  | zero => exact ⟨⟨[], by simp [waitStop], by simp [waitStop]⟩, rc⟩
  | succ tries ih =>
    have some_ : s.trace.length < (waitStop w tid (tries + 1) s).trace.length := by
      rw [waitStop]
      cases waitVerdict (w.wait4 s.trace.length tid) with
      | some verdict => simp [Child.log]
      | none =>
        have rest := (waitStop_quietly w tid tries (s.log .wait)).length
        simp only [Child.log, List.length_append, List.length_singleton] at rest ⊢
        omega
    have agree := (along.first some_).wait4
    rw [waitStop] at along ⊢
    rw [waitStop, ← agree]
    cases verdict : waitVerdict (w.wait4 s.trace.length tid) with
    | some rc' => exact Parallel.log s s' .wait rc'
    | none =>
      rw [verdict] at along
      have step : Parallel s (s.log .wait) s' (s'.log .wait) := ⟨⟨[.wait], rfl, rfl⟩, rc⟩
      exact step.trans (ih rc (along.rest step))

theorem unwind_grows (room : Nat) (s : Child) :
    s.trace.length < (unwind w (room + 1) s).1.trace.length := by
  simp only [unwind]
  split
  · simp [Child.log]
  · split
    · simp [Child.log]
    · split
      · refine Nat.lt_of_lt_of_le ?_ (unwind_quietly w room _).length
        simp [Child.log]
      · simp [Child.log]

theorem unwind_parallel (room : Nat) {s s' : Child} (rc : s'.rc = s.rc)
    (along : AgreeAlong w w' s s' (unwind w room s).1) :
    Parallel s (unwind w room s).1 s' (unwind w' room s').1 ∧
      (unwind w' room s').2 = (unwind w room s).2 := by
  induction room generalizing s s' with
  | zero => exact ⟨⟨⟨[], by simp [unwind], by simp [unwind]⟩, rc⟩, rfl⟩
  | succ room ih =>
    have reg := (along.first (unwind_grows room s)).getReg
    rw [unwind] at along ⊢
    rw [unwind, ← reg]
    have got := Parallel.log s s' .getReg (w.getReg s.trace.length).1
    by_cases failed : (w.getReg s.trace.length).1 < 0
    · simp only [failed, if_true]
      exact ⟨got, trivial⟩
    · by_cases full : room = 0
      · simp only [failed, full, if_true, if_false]
        exact ⟨got, trivial⟩
      · simp only [failed, full, if_false] at along ⊢
        have later := along.rest got
        have step (rc : Int) : Parallel { s.log .getReg with rc := (w.getReg s.trace.length).1 }
            { (s.log .getReg).log .unwStep with rc := rc }
            { s'.log .getReg with rc := (w.getReg s.trace.length).1 }
            { (s'.log .getReg).log .unwStep with rc := rc } := Parallel.log _ _ .unwStep rc
        by_cases stepped : 0 < w.unwStep (s.log .getReg).trace.length
        · simp only [gt_iff_lt, stepped, if_true] at later ⊢
          have more := (unwind_quietly w room { (s.log .getReg).log .unwStep with
            rc := w.unwStep (s.log .getReg).trace.length }).length
          have agree := (later.first (Nat.lt_of_lt_of_le (by simp [Child.log]) more)).unwStep
          rw [← agree]
          simp only [stepped, if_true]
          obtain ⟨rest, same⟩ := ih (by rfl) (later.rest (step _))
          exact ⟨got.trans ((step _).trans rest), congrArg _ same⟩
        · simp only [gt_iff_lt, stepped, if_false] at later ⊢
          have agree := (later.first (by simp [Child.log])).unwStep
          rw [← agree]
          simp only [stepped, if_false]
          exact ⟨got.trans (step _), trivial⟩

theorem leave_length (guards : List Guard) (s : Child) :
    s.trace.length ≤ (leave guards s).trace.length := by
  induction guards generalizing s with
  | nil => exact Nat.le_refl _
  | cons guard guards ih =>
    refine Nat.le_trans ?_ (ih (guard.run s))
    cases guard <;> simp [Guard.run, Child.log]

theorem sampleBody_quietly (tid : Int) (guards : List Guard) (s : Child) :
    Quietly s (sampleBody w tid guards s).1 := by
  unfold sampleBody
  by_cases failed : s.rc ≠ 0
  · rw [if_pos failed]
    exact Quietly.refl s s.rc
  · rw [if_neg failed]
    cases w.uptCreate s.trace.length tid with
    | false => exact Quietly.log s rfl (-1)
    | true => exact (Quietly.log s rfl s.rc).trans (unwind_quietly w 256 _)

theorem sampleBody_parallel (tid : Int) (guards : List Guard) {s s' : Child} (rc : s'.rc = s.rc)
    (along : AgreeAlong w w' s s' (sampleBody w tid guards s).1) :
    (sampleBody w' tid guards s').2.2 = (sampleBody w tid guards s).2.2 := by
  unfold sampleBody at along ⊢
  rw [rc]
  by_cases failed : s.rc ≠ 0
  · rw [if_pos failed, if_pos failed]
  · rw [if_neg failed] at along ⊢
    rw [if_neg failed]
    have agree : w'.uptCreate s'.trace.length tid = w.uptCreate s.trace.length tid := by
      cases created : w.uptCreate s.trace.length tid with
      | false =>
        rw [created] at along
        rw [← (along.first (by simp [Child.log])).uptCreate, created]
      | true =>
        rw [created] at along
        have more := (unwind_quietly w 256 (s.log (.uptCreate true))).length
        rw [← (along.first (Nat.lt_of_lt_of_le (by simp [Child.log]) more)).uptCreate, created]
    rw [agree]
    cases created : w.uptCreate s.trace.length tid with
    | false => rfl
    | true =>
      rw [created] at along
      have step : Parallel s (s.log (.uptCreate true)) s' (s'.log (.uptCreate true)) :=
        ⟨⟨[.uptCreate true], rfl, rfl⟩, rc⟩
      have later : AgreeAlong w w' (s.log (.uptCreate true)) (s'.log (.uptCreate true))
        (unwind w 256 (s.log (.uptCreate true))).1 := along.rest step
      have same := (unwind_parallel 256 (show (s'.log _).rc = (s.log _).rc from rc) later).2
      simp only [if_true, same]

/-- What a visit leaves in its task depends on the calls made during it alone. -/
theorem visit_isolated {t t' : Task} (tid : t'.tid = t.tid) (addrs : t'.addrs = t.addrs) {s s' : Child}
    (along : AgreeAlong w w' s s' (visit w t s).1) :
    (visit w' t' s').2.addrs = (visit w t s).2.addrs := by
  obtain ⟨session, isSession, after⟩ := visit_session w t s
  have nonempty : 0 < session.length := by cases isSession <;> simp
  have agree := (along.first (by rw [after]; simp [nonempty])).attach
  unfold visit visitBody at along ⊢
  rw [← agree, tid]
  cases attach : w.attach s.trace.length t.tid with
  | some errno => exact addrs
  | none =>
    rw [attach] at along
    have step := Parallel.log s s' (.attach t.tid true) (-1)
    have sampled := (along.until (leave_length _ _)).rest step
    have waited := waitStop_parallel t.tid 10 (by rfl)
      (sampled.until (sampleBody_quietly t.tid _ _).length)
    have same := sampleBody_parallel t.tid [.detach t.tid, .countTask, .clearRc] waited.rc
      (sampled.rest waited)
    simp only [same]
    cases (sampleBody w t.tid [.detach t.tid, .countTask, .clearRc]
      (waitStop w t.tid 10 { s.log (.attach t.tid true) with rc := -1 })).2.2 with
    | none => exact addrs
    | some stack => rfl

end Side

/-! ## The whole capture -/

/-- The state in which the i-th task is visited, if the flag was not seen set before. -/
def visitState (w : World) : List Task → Child → Nat → Option Child
  | [], _, _ => none
  | t :: tasks, s, i =>
    let set := w.interrupt s.trace.length
    let s := s.log (.readFlag set)
    if set then none
    else match i with
      | 0 => some s
      | i + 1 => visitState w tasks (visit w t s).1 i

def captureState (w : World) (tasks : List Task) (i : Nat) : Option Child :=
  if w.createSpace then visitState w tasks (Child.log {} (.createSpace true)) i else none

theorem captureLoop_getElem? (w : World) (tasks : List Task) (s : Child) (i : Nat) :
    (captureLoop w tasks s).2[i]? = tasks[i]?.map (fun t =>
      match visitState w tasks s i with
      | some s => (visit w t s).2
      | none => t) := by
  induction tasks generalizing s i with
  | nil => rfl
  | cons t tasks ih =>
    cases set : w.interrupt s.trace.length with
    | true => cases i <;> simp [captureLoop, visitState, set]
    | false =>
      cases i with
      | zero => simp [captureLoop, visitState, set]
      | succ i => simp [captureLoop, visitState, set, ih]

theorem capture_getElem? (w : World) (tasks : List Task) (i : Nat) :
    (capture w tasks).2[i]? = tasks[i]?.map (fun t =>
      match captureState w tasks i with
      | some s => (visit w t s).2
      | none => t) := by
  unfold capture captureState
  cases w.createSpace with
  | false =>
    simp only [Bool.false_eq_true, if_false]
    cases tasks[i]? <;> rfl
  | true => exact captureLoop_getElem? w tasks _ i

/-- The loop has ended after 256 frames at the latest, whatever more it is allowed, has stored
the frames it could read and nothing behind the array. -/
structure FramesRight (w : World) (s : Child) (mem : Nat → ULong) (r : Child × Frames) : Prop where
  ended : r = frameLoop w fLimit s ⟨mem, 0⟩
  calls : r.1 = (unwind w fLimit s).1
  bounded : r.2.nAddrs ≤ fLimit
  stored : (List.range r.2.nAddrs).map r.2.mem = framesFrom w s.trace.length fLimit
  inside : ∀ i, fLimit ≤ i → r.2.mem i = mem i

theorem frameLoop_right (w : World) (s : Child) (mem : Nat → ULong) (fuel : Nat)
    (enough : fLimit ≤ fuel) : FramesRight w s mem (frameLoop w fuel s ⟨mem, 0⟩) := by
  have run (n : Nat) (order : fLimit ≤ n) := frameLoop_unwind w n s ⟨mem, 0⟩
    (show 0 < fLimit by decide) (show fLimit ≤ 0 + n by omega)
  have short : (unwind w fLimit s).2.length ≤ fLimit := unwind_length w fLimit s
  rw [run fuel enough]
  constructor
  case ended => exact (run fLimit (Nat.le_refl _)).symm
  case calls => rfl
  case bounded => simpa using short
  case stored =>
    rw [← unwind_frames]
    simpa using storeAll_inside mem 0 (unwind w fLimit s).2
  case inside =>
    intro i behind
    exact storeAll_outside mem _ (Or.inr (by simp only [Nat.sub_zero]; omega))

structure CaptureRight (w : World) (threads : List (Int × Str)) : Prop where
  frames : ∀ s mem fuel, fLimit ≤ fuel → FramesRight w s mem (frameLoop w fuel s ⟨mem, 0⟩)
  results : ∀ (i : Nat) (tid : Int) (tname : Str), threads[i]? = some (tid, tname) →
    ∃ t, (capture w (threads.map taskCb)).2[i]? = some t ∧ t.tid = tid ∧ t.tname = tname.take 32 ∧
      t.addrs = match captureState w (threads.map taskCb) i with
        | some s => (outcome w tid s.trace.length).addrs w
        | none => []
  output : ∀ pid, (ObStack.addTasks { pid } (capture w (threads.map taskCb)).2).bts =
    ((capture w (threads.map taskCb)).2.filter (fun t => t.addrs ≠ [])).map Task.toBt
  isolated : ∀ (w' : World) (threads' : List (Int × Str)) (i i' : Nat) (tid : Int)
    (tname tname' : Str) (s s' : Child), threads[i]? = some (tid, tname) →
    threads'[i']? = some (tid, tname') → captureState w (threads.map taskCb) i = some s →
    captureState w' (threads'.map taskCb) i' = some s' →
    AgreeAlong w w' s s' (visit w (taskCb (tid, tname)) s).1 →
    (capture w' (threads'.map taskCb)).2[i']?.map Task.addrs =
      (capture w (threads.map taskCb)).2[i]?.map Task.addrs

/-- Every visited task holds what its own calls yielded, whatever became of the others. -/
theorem capture_samples (w : World) (errnos : w.ReportsErrno) (threads : List (Int × Str)) :
    CaptureRight w threads := by
  constructor
  case frames => exact frameLoop_right w
  case results =>
    intro i tid tname here
    rw [capture_getElem?, List.getElem?_map, here]
    refine ⟨_, rfl, ?_⟩
    cases captureState w (threads.map taskCb) i with
    | none => exact ⟨rfl, rfl, rfl⟩
    | some s =>
      obtain ⟨sameTid, sameName⟩ := visit_thread w (taskCb (tid, tname)) s
      exact ⟨sameTid, sameName, visit_addrs errnos (taskCb (tid, tname)) rfl s⟩
  case output =>
    intro pid
    rw [addTasks_bts, List.nil_append, captured]
    congr 1
    apply List.filter_congr
    intro t _
    cases held : t.addrs <;> simp [Task.isValid, held]
  case isolated =>
    intro w' threads' i i' tid tname tname' s s' here here' start start' along
    rw [capture_getElem?, capture_getElem?, List.getElem?_map, List.getElem?_map, here, here', start,
      start']
    have same : (visit w' (taskCb (tid, tname')) s').2.addrs =
        (visit w (taskCb (tid, tname)) s).2.addrs := by
      apply visit_isolated _ _ along
      · rfl
      · rfl
    exact congrArg some same

/-- A stack whose frames lead back to themselves. -/
def endlessWorld : World where
  createSpace := true
  attach _ _ := none
  wait4 _ _ := .stopped 19
  uptCreate _ _ := true
  getReg _ := (0, 0x401000)
  unwStep _ := 1
  interruptAt := none

theorem capture_samples_endless : CaptureRight endlessWorld [(7, ['t']), (8, ['t'])] :=
  capture_samples endlessWorld (fun _ _ _ failed => nomatch failed) _

end Obstack
