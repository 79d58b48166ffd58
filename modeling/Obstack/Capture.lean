import Obstack.Render

/-! The capture loop of the forked child. Every call to the outside is an event of a trace and
its outcome an arbitrary function of the number of events before it, so that an interrupt may
arrive between any two of them. -/
namespace Obstack
open CText

inductive Event where
  | createSpace (ok : Bool)
  | destroySpace
  | readFlag (set : Bool)
  | attach (tid : Int) (ok : Bool)
  | detach (tid : Int)
  | wait
  | uptCreate (ok : Bool)
  | uptDestroy
  | getReg
  | unwStep
  deriving DecidableEq, Repr

inductive WaitResult where
  | failed (errno : Int)
  | stopped (sig : Nat)
  | other
  deriving DecidableEq, Repr

/-- Outcomes of the calls; attach yields errno when it fails, and the interrupt flag is set
from some point on, or never. -/
structure World where
  createSpace : Bool
  attach : Nat → Int → Option Int
  wait4 : Nat → Int → WaitResult
  uptCreate : Nat → Int → Bool
  getReg : Nat → Int × ULong
  unwStep : Nat → Int
  interruptAt : Option Nat

def World.interrupt (w : World) (now : Nat) : Bool :=
  match w.interruptAt with
  | some time => decide (time ≤ now)
  | none => false

structure Child where
  trace : List Event := []
  rc : Int := 0
  taskCnt : Nat := 0
  deriving DecidableEq, Repr

def Child.log (s : Child) (e : Event) : Child := { s with trace := s.trace ++ [e] }

/-- What the DEFER statements of one iteration schedule. -/
inductive Guard where
  | clearRc
  | countTask
  | detach (tid : Int)
  | uptDestroy
  deriving DecidableEq, Repr

def Guard.run (s : Child) : Guard → Child
  | .clearRc => { s with rc := 0 }
  | .countTask => { s with taskCnt := s.taskCnt + 1 }
  | .detach tid => s.log (.detach tid)
  | .uptDestroy => s.log .uptDestroy

/-- The end of the scope: guards run in reverse order of their declaration. -/
def leave (guards : List Guard) (s : Child) : Child := guards.foldl Guard.run s

/-- The rc with which a wait4 result leaves the wait loop, if it does. -/
def waitVerdict : WaitResult → Option Int
  | .failed errno => some errno
  | .stopped _ => some 0
  | .other => none

/-- The wait loop; rc is -1 until a result is accepted. -/
def waitStop (w : World) (tid : Int) : Nat → Child → Child
  | 0, s => s
  | waitLoops + 1, s =>
    match waitVerdict (w.wait4 s.trace.length tid) with
    | some rc => { s.log .wait with rc := rc }
    | none => waitStop w tid waitLoops (s.log .wait)

/-- The do-while loop over the frames, with the room that is left in addrs_. -/
def unwind (w : World) : Nat → Child → Child × List ULong
  | 0, s => (s, [])
  | room + 1, s =>
    let (rc, uip) := w.getReg s.trace.length
    let s := { s.log .getReg with rc := rc }
    if rc < 0 then (s, [])
    else if room = 0 then (s, [uip])
    else
      let rc := w.unwStep s.trace.length
      let s := { s.log .unwStep with rc := rc }
      if rc > 0 then
        let rest := unwind w room s
        (rest.1, uip :: rest.2)
      else (s, [uip])

theorem unwind_length (w : World) (room : Nat) (s : Child) : (unwind w room s).2.length ≤ room := by
  induction room generalizing s with
  | zero => simp [unwind]
  | succ room ih =>
    simp only [unwind]
    split
    · simp
    · split
      · simp
      · split
        · simpa using ih _
        · simp

abbrev Stack := { addrs : List ULong // addrs.length ≤ 256 }

/-- The rest of an iteration once the wait loop is left: guards, newest first, and addrs_ if
written. -/
def sampleBody (w : World) (tid : Int) (guards : List Guard) (s : Child) :
    Child × List Guard × Option Stack :=
  if s.rc ≠ 0 then (s, guards, none)
  else if w.uptCreate s.trace.length tid then
    let guards := .uptDestroy :: guards
    let s := s.log (.uptCreate true)
    ((unwind w 256 s).1, guards, some ⟨(unwind w 256 s).2, unwind_length w 256 s⟩)
  else ({ s.log (.uptCreate false) with rc := -1 }, guards, none)

/-- One iteration up to its continue or its end. -/
def visitBody (w : World) (tid : Int) (s : Child) : Child × List Guard × Option Stack :=
  let guards := [.countTask, .clearRc]
  match w.attach s.trace.length tid with
  | some _ => ({ s.log (.attach tid false) with rc := -1 }, guards, none)
  | none =>
    let guards := .detach tid :: guards
    sampleBody w tid guards (waitStop w tid 10 { s.log (.attach tid true) with rc := -1 })

def visit (w : World) (t : Task) (s : Child) : Child × Task :=
  let r := visitBody w t.tid s
  (leave r.2.1 r.1, match r.2.2 with
    | some addrs => { t with addrs := addrs.1, bounded := addrs.2 }
    | none => t)

def captureLoop (w : World) : List Task → Child → Child × List Task
  | [], s => (s, [])
  | t :: tasks, s =>
    let set := w.interrupt s.trace.length
    let s := s.log (.readFlag set)
    if set then (s, t :: tasks)
    else
      let r := visit w t s
      let rest := captureLoop w tasks r.1
      (rest.1, r.2 :: rest.2)

def capture (w : World) (tasks : List Task) : Child × List Task :=
  if w.createSpace then
    let r := captureLoop w tasks (Child.log {} (.createSpace true))
    let set := w.interrupt r.1.trace.length
    let s := r.1.log (.readFlag set)
    let s := if set then { s with rc := -1 } else s
    (s.log .destroySpace, r.2)
  else ({ Child.log {} (.createSpace false) with rc := -1 }, tasks)

inductive ChildEnd where
  | waitFailed (errno : Int)
  | exited (status : Nat)
  | signaled (sig : Nat)
  | unhandled
  deriving DecidableEq, Repr

/-- WEXITSTATUS keeps the low byte of what the child returns. -/
def exitStatus (rc : Int) : Nat := (rc % 256).toNat

/-- The parent aggregates and calls stack_it only after exit status 0. -/
def parent (env : StackEnv) (conf : Config) (pid : Nat) (tasks : List Task) :
    ChildEnd → Option (Except Death Str)
  | .exited status =>
    if status = 0 then some (stackIt env conf (ObStack.addTasks { pid } tasks)) else none
  | _ => none

/-! ## Traces -/

def Event.idle : Event → Bool
  | .attach _ _ => false
  | .detach _ => false
  | _ => true

def Event.quiet : Event → Bool
  | .readFlag _ => false
  | e => e.idle

def attached (trace : List Event) : List Int :=
  trace.filterMap fun
    | .attach tid _ => some tid
    | _ => none

/-- Who is held: none after a violation, some none when nobody is. A successful attach needs
nobody to be held, a detach the very thread. -/
def bracket : Option (Option Int) → Event → Option (Option Int)
  | some none, .attach tid ok => if ok then some (some tid) else some none
  | some (some held), .detach tid => if tid = held then some none else none
  | _, .attach _ _ => none
  | _, .detach _ => none
  | held, _ => held

/-- Each attach that succeeds is followed by one detach of its thread before the next attach,
no other detach is made, and nobody is held at the end. -/
def Bracketed (trace : List Event) : Prop := trace.foldl bracket (some none) = some none

instance (trace : List Event) : Decidable (Bracketed trace) := inferInstanceAs (Decidable (_ = _))

inductive Session (tid : Int) : List Event → Prop where
  | refused : Session tid [.attach tid false]
  | held (calls : List Event) (quiet : ∀ e ∈ calls, e.quiet = true) :
    Session tid (.attach tid true :: (calls ++ [.detach tid]))

inductive Rounds : List Int → List Event → Prop where
  | nil : Rounds [] []
  | cons {tid : Int} {tids : List Int} {session trace : List Event} (first : Session tid session)
    (rest : Rounds tids trace) : Rounds (tid :: tids) (.readFlag false :: (session ++ trace))

theorem idle_bracket {calls : List Event} (idle : ∀ e ∈ calls, e.idle = true)
    (held : Option (Option Int)) : calls.foldl bracket held = held := by
  induction calls generalizing held with
  | nil => rfl
  | cons e calls ih =>
    have first : bracket held e = held := by
      have silent := idle e (by simp)
      cases e <;> first | contradiction | (rcases held with _ | _ | _ <;> rfl)
    rw [List.foldl_cons, first]
    exact ih (fun e he => idle e (by simp [he])) held

theorem idle_attached {calls : List Event} (idle : ∀ e ∈ calls, e.idle = true) :
    attached calls = [] := by
  rw [attached, List.filterMap_eq_nil_iff]
  intro e he
  have silent := idle e he
  cases e <;> first | contradiction | rfl

theorem quiet_idle {calls : List Event} (quiet : ∀ e ∈ calls, e.quiet = true) :
    ∀ e ∈ calls, e.idle = true := by
  intro e he
  have silent := quiet e he
  cases e <;> first | contradiction | rfl

theorem quiet_flag {calls : List Event} (quiet : ∀ e ∈ calls, e.quiet = true) (set : Bool) :
    Event.readFlag set ∉ calls := fun member => absurd (quiet _ member) (by simp [Event.quiet])

namespace Session

variable {tid : Int} {trace : List Event}

theorem bracket_eq (session : Session tid trace) : trace.foldl bracket (some none) = some none := by
  cases session with
  | refused => rfl
  | held calls quiet =>
    rw [List.foldl_cons, List.foldl_append]
    change List.foldl bracket (calls.foldl bracket (some (some tid))) [.detach tid] = _
    rw [idle_bracket (quiet_idle quiet)]
    simp [bracket]

theorem attached_eq (session : Session tid trace) : attached trace = [tid] := by
  cases session with
  | refused => rfl
  | held calls quiet =>
    change tid :: attached (calls ++ [.detach tid]) = _
    rw [attached, List.filterMap_append]
    change tid :: (attached calls ++ []) = _
    rw [idle_attached (quiet_idle quiet)]
    rfl

theorem flag_not_mem (session : Session tid trace) (set : Bool) : Event.readFlag set ∉ trace := by
  cases session with
  | refused => simp
  | held calls quiet => simp [quiet_flag quiet set]

end Session

namespace Rounds

variable {tids : List Int} {trace : List Event}

theorem bracketed (rounds : Rounds tids trace) : Bracketed trace := by
  induction rounds with
  | nil => rfl
  | @cons tid tids session trace first _ ih =>
    rw [Bracketed, List.foldl_cons, List.foldl_append]
    change trace.foldl bracket (session.foldl bracket (some none)) = _
    rw [first.bracket_eq]
    exact ih

theorem attached_eq (rounds : Rounds tids trace) : attached trace = tids := by
  induction rounds with
  | nil => rfl
  | @cons tid tids session trace first _ ih =>
    change attached (session ++ trace) = _
    rw [attached, List.filterMap_append]
    change attached session ++ attached trace = _
    rw [first.attached_eq, ih]
    rfl

theorem flag_not_mem (rounds : Rounds tids trace) : Event.readFlag true ∉ trace := by
  induction rounds with
  | nil => simp
  | @cons tid tids session trace first _ ih =>
    simp only [List.mem_cons, List.mem_append, not_or]
    exact ⟨by simp, first.flag_not_mem true, ih⟩

end Rounds

/-! ## Visits -/

def Quietly (s s' : Child) : Prop :=
  ∃ calls, (∀ e ∈ calls, Event.quiet e = true) ∧ s'.trace = s.trace ++ calls ∧
    s'.taskCnt = s.taskCnt

namespace Quietly

theorem refl (s : Child) (rc : Int) : Quietly s { s with rc := rc } :=
  ⟨[], by simp, by simp, rfl⟩

theorem log (s : Child) {e : Event} (quiet : e.quiet = true) (rc : Int) :
    Quietly s { s.log e with rc := rc } :=
  ⟨[e], by simpa using quiet, rfl, rfl⟩

theorem trans {s s' s'' : Child} (first : Quietly s s') (second : Quietly s' s'') :
    Quietly s s'' := by
  obtain ⟨calls, quiet, trace, count⟩ := first
  obtain ⟨calls', quiet', trace', count'⟩ := second
  refine ⟨calls ++ calls', ?_, by rw [trace', trace, List.append_assoc], count'.trans count⟩
  intro e he
  exact (List.mem_append.mp he).elim (quiet e) (quiet' e)

end Quietly

theorem waitStop_quietly (w : World) (tid : Int) (waitLoops : Nat) (s : Child) :
    Quietly s (waitStop w tid waitLoops s) := by
  induction waitLoops generalizing s with
  | zero => exact Quietly.refl s s.rc
  | succ waitLoops ih =>
    rw [waitStop]
    cases waitVerdict (w.wait4 s.trace.length tid) with
    | some rc => exact Quietly.log s rfl rc
    | none => exact (Quietly.log s rfl s.rc).trans (ih _)

theorem unwind_quietly (w : World) (room : Nat) (s : Child) : Quietly s (unwind w room s).1 := by
  induction room generalizing s with
  | zero => exact Quietly.refl s s.rc
  | succ room ih =>
    have got := Quietly.log s (e := .getReg) rfl (w.getReg s.trace.length).1
    simp only [unwind]
    split
    · exact got
    · split
      · exact got
      · have stepped := got.trans (Quietly.log _ (e := .unwStep) rfl
          (w.unwStep ({ s.log .getReg with rc := (w.getReg s.trace.length).1 } : Child).trace.length))
        split
        · exact stepped.trans (ih _)
        · exact stepped

/-- Once attached, whatever quiet calls follow, the guards detach, count and clear. -/
theorem leave_session {tid : Int} {s s' : Child}
    (calls : Quietly { s.log (.attach tid true) with rc := -1 } s') :
    ∃ session, Session tid session ∧
      leave [.detach tid, .countTask, .clearRc] s' =
        { trace := s.trace ++ session, rc := 0, taskCnt := s.taskCnt + 1 } := by
  obtain ⟨calls, quiet, trace, count⟩ := calls
  refine ⟨_, Session.held calls quiet, ?_⟩
  simp only [leave, List.foldl_cons, List.foldl_nil, Guard.run, Child.log, trace, count,
    List.append_assoc, List.cons_append, List.nil_append]

theorem sampleBody_session (w : World) (tid : Int) {s s' : Child}
    (waited : Quietly { s.log (.attach tid true) with rc := -1 } s') :
    ∃ session, Session tid session ∧
      leave (sampleBody w tid [.detach tid, .countTask, .clearRc] s').2.1
          (sampleBody w tid [.detach tid, .countTask, .clearRc] s').1 =
        { trace := s.trace ++ session, rc := 0, taskCnt := s.taskCnt + 1 } := by
  unfold sampleBody
  by_cases stopped : s'.rc ≠ 0
  · simp only [if_pos stopped]
    exact leave_session waited
  · simp only [if_neg stopped]
    cases w.uptCreate s'.trace.length tid with
    | false =>
      exact leave_session (waited.trans (Quietly.log s' (e := .uptCreate false) rfl (-1)))
    | true =>
      have created := waited.trans (Quietly.log s' (e := .uptCreate true) rfl s'.rc)
      have unwound := created.trans (unwind_quietly w 256 (s'.log (.uptCreate true)))
      exact leave_session (unwound.trans (Quietly.log _ (e := .uptDestroy) rfl _))

theorem visit_session (w : World) (t : Task) (s : Child) :
    ∃ session, Session t.tid session ∧ (visit w t s).1 =
      { trace := s.trace ++ session, rc := 0, taskCnt := s.taskCnt + 1 } := by
  simp only [visit, visitBody]
  cases w.attach s.trace.length t.tid with
  | some errno => exact ⟨_, Session.refused, rfl⟩
  | none => exact sampleBody_session w t.tid (waitStop_quietly w t.tid 10 _)

/-- The loop visits a prefix of the tasks; what is left over was cut off by the flag. -/
theorem captureLoop_rounds (w : World) (tasks : List Task) (s : Child) (clear : s.rc = 0) :
    ∃ visited rest trace, tasks.map Task.tid = visited ++ rest ∧ Rounds visited trace ∧
      (captureLoop w tasks s).1.rc = 0 ∧
      ((rest = [] ∧ (captureLoop w tasks s).1.trace = s.trace ++ trace) ∨
        (w.interrupt (s.trace ++ trace).length = true ∧
          (captureLoop w tasks s).1.trace = s.trace ++ trace ++ [.readFlag true])) := by
  induction tasks generalizing s with
  | nil => exact ⟨[], [], [], rfl, Rounds.nil, clear, Or.inl ⟨rfl, by simp [captureLoop]⟩⟩
  | cons t tasks ih =>
    simp only [captureLoop]
    cases set : w.interrupt s.trace.length with
    | true =>
      refine ⟨[], (t :: tasks).map Task.tid, [], rfl, Rounds.nil, clear, Or.inr ⟨?_, ?_⟩⟩
      · rwa [List.append_nil]
      · simp [Child.log]
    | false =>
      obtain ⟨session, isSession, after⟩ := visit_session w t (s.log (.readFlag false))
      obtain ⟨visited, rest, trace, split, rounds, rc, ending⟩ :=
        ih (visit w t (s.log (.readFlag false))).1 (by rw [after])
      refine ⟨t.tid :: visited, rest, _, by rw [List.map_cons, split]; rfl,
        Rounds.cons isSession rounds, rc, ?_⟩
      rw [after] at ending ⊢
      simpa [Child.log, List.append_assoc] using ending

/-! ## The child and its parent -/

/-- attach and detach are bracketed, each task is attached at most once and in order, none
after the flag was seen set, and return value 0 means that every task was visited. -/
structure Bracketing (tids : List Int) (s : Child) : Prop where
  bracketed : Bracketed s.trace
  once : attached s.trace <+: tids
  stopped : ∀ before after, s.trace = before ++ .readFlag true :: after → attached after = []
  complete : s.rc = 0 → attached s.trace = tids

theorem World.interrupt_mono (w : World) {now later : Nat} (set : w.interrupt now = true)
    (order : now ≤ later) : w.interrupt later = true := by
  unfold interrupt at *
  cases at_ : w.interruptAt with
  | none => simp [at_] at set
  | some time =>
    simp only [at_, decide_eq_true_eq] at *
    omega

theorem attached_append (front tail : List Event) :
    attached (front ++ tail) = attached front ++ attached tail := List.filterMap_append

theorem attached_after {front tail before after : List Event}
    (absent : Event.readFlag true ∉ front) (idle : attached tail = [])
    (split : front ++ tail = before ++ .readFlag true :: after) : attached after = [] := by
  rcases List.append_eq_append_iff.mp split with ⟨between, _, later⟩ | ⟨seen, early, rest⟩
  · rw [later, attached_append] at idle
    exact (List.append_eq_nil_iff.mp idle).2
  · cases seen with
    | nil =>
      rw [List.nil_append] at rest
      rw [← rest] at idle
      exact idle
    | cons e seen =>
      obtain ⟨rfl, _⟩ := List.cons.inj rest
      exact absurd (by simp [early]) absent

theorem bracketing_of_rounds {tids visited : List Int} {trace : List Event} {s : Child}
    (rounds : Rounds visited trace) (cut : visited <+: tids) (ok : Bool) (tail : List Event)
    (idle : ∀ e ∈ tail, e.idle = true) (shape : s.trace = (.createSpace ok :: trace) ++ tail)
    (complete : s.rc = 0 → visited = tids) : Bracketing tids s := by
  have silent := idle_attached idle
  have absent : Event.readFlag true ∉ Event.createSpace ok :: trace := by
    simp [rounds.flag_not_mem]
  have visits : attached s.trace = visited := by
    rw [shape, attached_append, silent, List.append_nil]
    exact rounds.attached_eq
  refine ⟨?_, visits ▸ cut, fun before after split => ?_, fun rc => visits.trans (complete rc)⟩
  · rw [Bracketed, shape, List.foldl_append, idle_bracket idle]
    exact rounds.bracketed
  · exact attached_after absent silent (shape ▸ split)

theorem capture_child (w : World) (tasks : List Task) :
    Bracketing (tasks.map Task.tid) (capture w tasks).1 ∧
      ((capture w tasks).1.rc = 0 ∨ (capture w tasks).1.rc = -1) := by
  unfold capture
  cases w.createSpace with
  | false =>
    refine ⟨bracketing_of_rounds Rounds.nil List.nil_prefix false [] (by simp) rfl ?_, ?_⟩
    · simp
    · exact Or.inr rfl
  | true =>
    obtain ⟨visited, rest, trace, split, rounds, clear, ending⟩ :=
      captureLoop_rounds w tasks (Child.log {} (.createSpace true)) rfl
    generalize captureLoop w tasks (Child.log {} (.createSpace true)) = r at clear ending
    simp only [if_true]
    have cut : visited <+: tasks.map Task.tid := ⟨rest, split.symm⟩
    rcases ending with ⟨rfl, shape⟩ | ⟨seen, shape⟩
    · have all : visited = tasks.map Task.tid := by rw [split, List.append_nil]
      cases set : w.interrupt r.1.trace.length with
      | true =>
        refine ⟨bracketing_of_rounds rounds cut true [.readFlag true, .destroySpace]
          (by simp [Event.idle]) ?_ (fun _ => all), Or.inr rfl⟩
        simp [Child.log, shape]
      | false =>
        refine ⟨bracketing_of_rounds rounds cut true [.readFlag false, .destroySpace]
          (by simp [Event.idle]) ?_ (fun _ => all), Or.inl clear⟩
        simp [Child.log, shape]
    · have set : w.interrupt r.1.trace.length = true :=
        w.interrupt_mono seen (by rw [shape]; simp)
      rw [set]
      refine ⟨bracketing_of_rounds rounds cut true [.readFlag true, .readFlag true, .destroySpace]
        (by simp [Event.idle]) ?_ (fun rc => ?_), Or.inr rfl⟩
      · simp [Child.log, shape]
      · simp [Child.log] at rc

/-- The capture process, for every task list and every outcome of its calls; the parent
prints only samples of which every task was visited. -/
theorem capture_bracketing (w : World) (tasks : List Task) :
    Bracketing (tasks.map Task.tid) (capture w tasks).1 ∧
      ∀ (env : StackEnv) (conf : Config) (pid : Nat),
        parent env conf pid (capture w tasks).2 (.exited (exitStatus (capture w tasks).1.rc)) ≠ none →
          attached (capture w tasks).1.trace = tasks.map Task.tid := by
  obtain ⟨bracketing, rc⟩ := capture_child w tasks
  refine ⟨bracketing, fun env conf pid printed => bracketing.complete ?_⟩
  rcases rc with zero | interrupted
  · exact zero
  · rw [parent, interrupted] at printed
    exact absurd rfl printed

end Obstack
