import Obstack.Interleaving

/-! Parent and child once no more signals are sent: a bound on the steps that are left, and where
they can stop. -/
namespace Obstack
open CText Transitions

def System.settle (x : Setting) (s : System) : Action → Option System
  | .send _ _ => none
  | act => s.step x act

/-- Signals that wait to be delivered. -/
def SigState.load (s : SigState) : Nat := interruptSignals.countP s.pending

/-- Characters to print at most. -/
def Setting.size (x : Setting) : Nat :=
  match x.undisturbed with
  | some (.ok text) => text.length
  | _ => 0

def ParentProcess.cost (x : Setting) (p : ParentProcess) : Nat :=
  match p.ended with
  | some _ => 0
  | none =>
    match p.point with
    | .block => 600 * x.tasks.length + x.size + 16
    | .fork => 600 * x.tasks.length + x.size + 15
    | .wait => x.size + 4
    | .unblock _ => x.size + 3
    | .report _ => x.size + 2
    | .print rest _ => rest.length + 1

def ChildProcess.cost (tasks : List Task) (c : ChildProcess) : Nat :=
  match c.ended with
  | some _ => 0
  | none =>
    match c.point with
    | .unblock => 600 * tasks.length + 10
    | .install sigs => 600 * tasks.length + 6 + sigs.length
    | .main m => m.cost + 1

/-- Steps that are left at most. -/
def System.cost (x : Setting) (s : System) : Nat :=
  s.parent.cost x + s.parent.signals.load +
    match s.child with
    | some c => c.cost x.tasks + c.signals.load
    | none => 0

section Settle

variable {x : Setting} {s s' : System}

theorem load_delivered (s : SigState) {sig : Interrupt} (deliverable : s.deliverable sig = true) :
    (s.delivered sig).load < s.load := by
  have pending : s.pending sig = true := (Bool.and_eq_true_iff.mp deliverable).1
  cases sig with
  | SIGHUP =>
    simp only [SigState.load, SigState.delivered, interruptSignals, List.countP_cons, pending]
    simp
  | SIGINT =>
    simp only [SigState.load, SigState.delivered, interruptSignals, List.countP_cons, pending]
    simp
  | SIGTERM =>
    simp only [SigState.load, SigState.delivered, interruptSignals, List.countP_cons, pending]
    simp

theorem deliver_parent_cost (x : Setting) (p : ParentProcess) {sig : Interrupt}
    (deliverable : p.signals.deliverable sig = true) :
    (p.deliver sig).cost x + (p.deliver sig).signals.load < p.cost x + p.signals.load := by
  have fewer := load_delivered p.signals deliverable
  cases action : p.signals.action sig with
  | default =>
    simp only [ParentProcess.deliver, action, ParentProcess.cost]
    omega
  | ignored =>
    simp only [ParentProcess.deliver, action, ParentProcess.cost]
    omega
  | setInterrupt =>
    simp only [ParentProcess.deliver, action, ParentProcess.cost]
    omega

theorem deliver_child_cost (tasks : List Task) (c : ChildProcess) {sig : Interrupt}
    (deliverable : c.signals.deliverable sig = true) :
    (c.deliver sig).cost tasks + (c.deliver sig).signals.load <
      c.cost tasks + c.signals.load := by
  have fewer := load_delivered c.signals deliverable
  cases action : c.signals.action sig with
  | default =>
    simp only [ChildProcess.deliver, action, ChildProcess.cost]
    omega
  | ignored =>
    simp only [ChildProcess.deliver, action, ChildProcess.cost]
    omega
  | setInterrupt =>
    simp only [ChildProcess.deliver, action, ChildProcess.cost]
    omega

theorem next_child_cost (w : World) (tasks : List Task) (c : ChildProcess)
    (going : c.ended = none) :
    (c.next w tasks).cost tasks + (c.next w tasks).signals.load <
      c.cost tasks + c.signals.load := by
  obtain ⟨signals, point, interrupt, ended⟩ := c
  obtain rfl : ended = none := going
  cases point with
  | unblock =>
    simp only [ChildProcess.next, ChildProcess.cost, SigState.load, SigState.block]
    simp [interruptSignals]
  | install sigs =>
    cases sigs with
    | nil => simp [ChildProcess.next, ChildProcess.cost, Machine.cost, Point.cost]
    | cons first sigs =>
      simp [ChildProcess.next, ChildProcess.cost, SigState.load, SigState.install]
  | main m =>
    cases stepped : m.next w interrupt.isSome with
    | some m' =>
      have lower := (Machine.next_effect stepped).lower
      simpa [ChildProcess.next, stepped, ChildProcess.cost] using lower
    | none => simp [ChildProcess.next, stepped, ChildProcess.cost]

/-- What the parent starts to print is as long as the bound has it. -/
theorem parent_next_cost (safe : s.Safe x) {forked : Bool} (going : s.parent.ended = none)
    (stepped : s.parentNext x forked = some s') : s'.cost x < s.cost x := by
  obtain ⟨⟨signals, point, written, ended⟩, child⟩ := s
  obtain rfl : ended = none := going
  cases point with
  | block =>
    obtain rfl := Option.some.inj stepped
    simp [System.cost, ParentProcess.cost, SigState.load, SigState.block]
  | fork =>
    obtain rfl := Option.some.inj stepped
    have quiet : SigState.load signals.forked = 0 := by
      simp [SigState.load, SigState.forked]
    cases forked with
    | false =>
      simp only [System.cost, ParentProcess.cost, Bool.false_eq_true, if_false]
      omega
    | true =>
      simp only [System.cost, ParentProcess.cost, ChildProcess.cost, if_true, quiet]
      omega
  | wait =>
    cases child with
    | none =>
      obtain rfl := Option.some.inj stepped
      simp [System.cost, ParentProcess.cost]
    | some c =>
      obtain ⟨e, ended, rfl⟩ := Option.map_eq_some_iff.mp stepped
      simp [System.cost, ParentProcess.cost]
  | unblock result =>
    obtain rfl := Option.some.inj stepped
    simp [System.cost, ParentProcess.cost, SigState.load, SigState.block]
  | report result =>
    cases report : x.report child result with
    | none =>
      simp only [System.parentNext, report] at stepped
      obtain rfl := Option.some.inj stepped
      simp [System.cost, ParentProcess.cost]
    | some outcome =>
      cases outcome with
      | error death =>
        simp only [System.parentNext, report] at stepped
        obtain rfl := Option.some.inj stepped
        simp [System.cost, ParentProcess.cost]
      | ok text =>
        simp only [System.parentNext, report] at stepped
        obtain rfl := Option.some.inj stepped
        rcases safe.report rfl with ⟨_, told, _⟩ | ⟨_, silent⟩
        · have size : x.size = text.length := by
            rw [Setting.size, ← told, report]
          simp only [System.cost, ParentProcess.cost, size]
          omega
        · rw [report] at silent
          cases silent
  | print rest result =>
    cases rest with
    | nil =>
      obtain rfl := Option.some.inj stepped
      simp [System.cost, ParentProcess.cost]
    | cons c rest => cases stepped

theorem parent_writes_cost {n : Nat} (going : s.parent.ended = none)
    (stepped : s.parentWrites n = some s') : s'.cost x < s.cost x := by
  obtain ⟨⟨signals, point, written, ended⟩, child⟩ := s
  obtain rfl : ended = none := going
  cases point with
  | print rest result =>
    simp only [System.parentWrites, Option.ite_none_right_eq_some, Option.some.injEq] at stepped
    obtain ⟨⟨some_, left⟩, rfl⟩ := stepped
    have unwritten := List.length_pos_iff.mpr left
    simp only [System.cost, ParentProcess.cost, List.length_drop]
    omega
  | block => cases stepped
  | fork => cases stepped
  | wait => cases stepped
  | unblock result => cases stepped
  | report result => cases stepped

theorem settle_step {act : Action} (settled : s.settle x act = some s') :
    s.step x act = some s' := by
  cases act with
  | send party sig => cases settled
  | deliver party sig => exact settled
  | parent forked => exact settled
  | write n => exact settled
  | child => exact settled

theorem child_cost {c c' : ChildProcess} (here : s.child = some c)
    (lower : c'.cost x.tasks + c'.signals.load < c.cost x.tasks + c.signals.load) :
    System.cost x { s with child := some c' } < s.cost x := by
  simp only [System.cost, here]
  omega

theorem settle_lowers (safe : s.Safe x) {act : Action} (settled : s.settle x act = some s') :
    s'.cost x < s.cost x := by
  cases System.step_move (settle_step settled) with
  | sendParent sig going => cases settled
  | sendChild sig here going => cases settled
  | deliverParent sig going deliverable =>
    have lower := deliver_parent_cost x s.parent deliverable
    simp only [System.cost]
    omega
  | deliverChild sig here going deliverable =>
    exact child_cost here (deliver_child_cost x.tasks _ deliverable)
  | parent going next => exact parent_next_cost safe going next
  | write going written => exact parent_writes_cost going written
  | child here going free => exact child_cost here (next_child_cost x.world x.tasks _ going)

/-- The parent only waits for a child that can go on itself, or that waits for a thread. -/
theorem settle_progress (going : s.parent.ended = none)
    (awaited : ∀ c, s.child = some c → c.ended = none → c.hangs x.returns = false) :
    ∃ act s', s.settle x act = some s' := by
  have parent_goes : s.parentNext x false ≠ none → ∃ act s', s.settle x act = some s' := by
    intro some_
    obtain ⟨mid, next⟩ := Option.ne_none_iff_exists'.mp some_
    exact ⟨.parent false, mid, by simp only [System.settle, System.step, going, if_true, next]⟩
  cases point : s.parent.point with
  | wait =>
    cases here : s.child with
    | none => exact parent_goes (by simp [System.parentNext, point, here])
    | some c =>
      cases ended : c.ended with
      | some e => exact parent_goes (by simp [System.parentNext, point, here, ended])
      | none =>
        refine ⟨.child, { s with child := some (c.next x.world x.tasks) }, ?_⟩
        simp only [System.settle, System.step, here, ended, awaited c here ended, and_self,
          if_true]
  | block => exact parent_goes (by simp [System.parentNext, point])
  | fork => exact parent_goes (by simp [System.parentNext, point])
  | unblock result => exact parent_goes (by simp [System.parentNext, point])
  | report result =>
    cases report : x.report s.child result with
    | none => exact parent_goes (by simp [System.parentNext, point, report])
    | some outcome => cases outcome <;> exact parent_goes (by simp [System.parentNext, point, report])
  | print rest result =>
    cases rest with
    | nil => exact parent_goes (by simp [System.parentNext, point])
    | cons c rest =>
      refine ⟨.write 1, { s with parent := { s.parent with
        point := .print ((c :: rest).drop 1) result
        written := s.parent.written ++ (c :: rest).take 1 } }, ?_⟩
      simp only [System.settle, System.step, going, if_true, System.parentWrites, point]
      simp

end Settle

/-- From every state that signals can lead to, once no more are sent, the two processes have only
so many steps left. Where they cannot go on, both have ended and nobody is held, or the child is
in a wait4 that does not come back. -/
theorem settles_released (x : Setting) (blocked pending ignored : Interrupt → Bool)
    {s s' : System} {acts : List Action}
    (reaches : Reaches (System.step x) (.start blocked pending ignored) s)
    (ran : run (System.settle x) s acts = some s') :
    acts.length ≤ s.cost x ∧ ((∀ act, s'.settle x act = none) →
      (s'.parent.ended ≠ none ∧
        ∀ c, s'.child = some c → c.ended ≠ none ∧ Bracketed c.trace) ∨
      ∃ c, s'.child = some c ∧ c.ended = none ∧ c.hangs x.returns = true) := by
  have keeps : ∀ (s : System) (act : Action) (s' : System), s.Safe x →
      s.settle x act = some s' → s'.Safe x :=
    fun _ _ _ safe settled => safe.step (settle_step settled)
  have start := reached_safe reaches
  have safe : s'.Safe x := Reaches.invariant keeps ⟨acts, ran⟩ start
  refine ⟨?_, fun stuck => ?_⟩
  · have bound : acts.length + s'.cost x ≤ s.cost x :=
      run_length_le keeps (fun _ _ _ safe settled => settle_lowers safe settled) start ran
    omega
  · by_cases hanging : ∃ c, s'.child = some c ∧ c.ended = none ∧ c.hangs x.returns = true
    · exact Or.inr hanging
    · have gone : s'.parent.ended ≠ none := by
        intro going
        obtain ⟨act, next, settled⟩ := settle_progress (x := x) going (by
          intro c here alive
          by_contra hangs
          exact hanging ⟨c, here, alive, by simpa using hangs⟩)
        rw [stuck act] at settled
        cases settled
      refine Or.inl ⟨gone, fun c here => ?_⟩
      have ended := safe.reaped_child here gone
      exact ⟨ended, (safe.sound c here).bracketed ended⟩

/-- What is left to do after the signal has reached the child. -/
def restOfRun : List Action := List.replicate 13 .child ++ List.replicate 3 (.parent false)

theorem settles_released_interrupted :
    ∃ s s', run (System.step singleFrame) (.start unset unset unset)
        (interruptedRun.take 12) = some s ∧
      run (System.settle singleFrame) s restOfRun = some s' ∧
      restOfRun.length ≤ s.cost singleFrame ∧
      ((∀ act, s'.settle singleFrame act = none) →
        (s'.parent.ended ≠ none ∧
          ∀ c, s'.child = some c → c.ended ≠ none ∧ Bracketed c.trace) ∨
        ∃ c, s'.child = some c ∧ c.ended = none ∧ c.hangs singleFrame.returns = true) :=
  ⟨_, _, rfl, rfl, @settles_released singleFrame unset unset unset _ _ restOfRun
    ⟨interruptedRun.take 12, rfl⟩ rfl⟩

end Obstack
