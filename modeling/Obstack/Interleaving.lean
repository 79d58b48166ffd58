import Obstack.Process

/-! Parent and child together, whenever the signals come: who is attached to whom, what the capture
of a child that returns was, and what of the report has left the parent. -/
namespace Obstack
open CText Transitions

/-- Written and still to be written are the whole of what stack_it prints. -/
def System.Told (x : Setting) (s : System) : Prop :=
  match s.parent.point with
  | .print rest result => x.report s.child result = some (.ok (s.parent.written ++ rest))
  | _ => s.parent.written = []

/-- The parent can be killed only before it forks or after it has reaped its child. -/
structure System.Safe (x : Setting) (s : System) : Prop where
  blocked : s.parent.point.masked = true → ∀ sig, s.parent.signals.blocked sig = true
  forked : ∀ c, s.child = some c → s.parent.point ≠ .block ∧ s.parent.point ≠ .fork
  reaped : ∀ result, s.parent.point.reaped = some result →
    s.child.map ChildProcess.ended = result.map some
  killed : ∀ sig, s.parent.ended = some (.killed sig) → s.parent.point.masked = false
  returned : ∀ result, s.parent.ended = some (.returned result) →
    (s.parent.point = .report result ∧ x.report s.child result = none) ∨
      s.parent.point = .print [] result
  died : ∀ death, s.parent.ended = some (.died death) → ∃ result,
    s.parent.point = .report result ∧ x.report s.child result = some (.error death)
  told : s.Told x
  sound : ∀ c, s.child = some c → c.Sound x.world x.tasks

namespace System

section Safe

variable {x : Setting} {s s' : System}

theorem safe_start (blocked pending ignored : Interrupt → Bool) :
    Safe x (start blocked pending ignored) where
  blocked := by simp [start, ParentPoint.masked]
  forked := by simp [start]
  reaped := by simp [start, ParentPoint.reaped]
  killed := by simp [start]
  returned := by simp [start]
  died := by simp [start]
  told := rfl
  sound := by simp [start]

/-- Mask, pending signals and actions are all that a signal that is not deadly changes. -/
theorem Safe.signals (safe : s.Safe x) {signals : SigState}
    (same : signals.blocked = s.parent.signals.blocked) :
    Safe x { s with parent := { s.parent with signals := signals } } where
  blocked := same ▸ safe.blocked
  forked := safe.forked
  reaped := safe.reaped
  killed := safe.killed
  returned := safe.returned
  died := safe.died
  told := safe.told
  sound := safe.sound

theorem Safe.unreaped (safe : s.Safe x) {c : ChildProcess} (here : s.child = some c)
    (going : c.ended = none) : s.parent.point.reaped = none := by
  cases later : s.parent.point.reaped with
  | none => rfl
  | some result =>
    have reaped := safe.reaped result later
    rw [here, Option.map_some, going] at reaped
    cases result <;> simp at reaped

/-- The child goes on, or a signal reaches it, while it has not ended. -/
theorem Safe.child_moves (safe : s.Safe x) {c c' : ChildProcess} (here : s.child = some c)
    (going : c.ended = none) (sound : c'.Sound x.world x.tasks) :
    Safe x { s with child := some c' } := by
  have unreaped := safe.unreaped here going
  exact {
    blocked := safe.blocked
    forked := fun _ _ => safe.forked c here
    reaped := by
      intro result later
      rw [unreaped] at later
      cases later
    killed := safe.killed
    returned := by
      intro result returned
      rcases safe.returned result returned with ⟨point, _⟩ | point
      · simp [point, ParentPoint.reaped] at unreaped
      · exact Or.inr point
    died := by
      intro death died
      obtain ⟨result, point, _⟩ := safe.died death died
      simp [point, ParentPoint.reaped] at unreaped
    told := by
      have told := safe.told
      unfold Told at told ⊢
      cases point : s.parent.point with
      | print rest result => simp [point, ParentPoint.reaped] at unreaped
      | block => simpa only [point] using told
      | fork => simpa only [point] using told
      | wait => simpa only [point] using told
      | unblock result => simpa only [point] using told
      | report result => simpa only [point] using told
    sound := by
      intro c'' same
      obtain rfl := Option.some.inj same
      exact sound }

/-- The parent goes on, and no child is born. -/
theorem Safe.parent_moves (safe : s.Safe x) {p : ParentProcess} (going : p.ended = none)
    (blocked : p.point.masked = true → ∀ sig, p.signals.blocked sig = true)
    (forked : ∀ c, s.child = some c → p.point ≠ .block ∧ p.point ≠ .fork)
    (reaped : ∀ result, p.point.reaped = some result →
      s.child.map ChildProcess.ended = result.map some)
    (told : Told x { s with parent := p }) : Safe x { s with parent := p } where
  blocked := blocked
  forked := forked
  reaped := reaped
  killed := by simp [going]
  returned := by simp [going]
  died := by simp [going]
  told := told
  sound := safe.sound

theorem Safe.parent_ends (safe : s.Safe x) (signals : SigState)
    (same : signals.blocked = s.parent.signals.blocked) (e : ParentEnd)
    (killed : ∀ sig, e = .killed sig → s.parent.point.masked = false)
    (returned : ∀ result, e = .returned result →
      (s.parent.point = .report result ∧ x.report s.child result = none) ∨
        s.parent.point = .print [] result)
    (died : ∀ death, e = .died death → ∃ result,
      s.parent.point = .report result ∧ x.report s.child result = some (.error death)) :
    Safe x { s with parent := { s.parent with signals := signals, ended := some e } } where
  blocked := same ▸ safe.blocked
  forked := safe.forked
  reaped := safe.reaped
  killed := fun sig ended => killed sig (Option.some.inj ended)
  returned := fun result ended => returned result (Option.some.inj ended)
  died := fun death ended => died death (Option.some.inj ended)
  told := safe.told
  sound := safe.sound

theorem Safe.deliver_parent (safe : s.Safe x) {sig : Interrupt}
    (deliverable : s.parent.signals.deliverable sig = true) :
    Safe x { s with parent := s.parent.deliver sig } := by
  cases action : s.parent.signals.action sig with
  | default =>
    have unmasked : s.parent.point.masked = false := by
      by_contra masked
      have closed := safe.blocked (Bool.not_eq_false _ ▸ masked) sig
      simp [SigState.deliverable, closed] at deliverable
    simp only [ParentProcess.deliver, action]
    exact safe.parent_ends (s.parent.signals.delivered sig) rfl (.killed sig)
      (fun _ _ => unmasked) (by simp) (by simp)
  | ignored =>
    simp only [ParentProcess.deliver, action]
    exact safe.signals rfl
  | setInterrupt =>
    simp only [ParentProcess.deliver, action]
    exact safe.signals rfl

theorem Safe.parent_next (safe : s.Safe x) (going : s.parent.ended = none) {forked : Bool}
    (stepped : s.parentNext x forked = some s') : s'.Safe x := by
  obtain ⟨⟨signals, point, written, ended⟩, child⟩ := s
  obtain rfl : ended = none := going
  have told := safe.told
  cases point with
  | block =>
    obtain rfl := Option.some.inj stepped
    exact safe.parent_moves rfl (fun _ _ => rfl)
      (fun c here => absurd rfl (safe.forked c here).1) (by simp [ParentPoint.reaped]) told
  | fork =>
    obtain rfl := Option.some.inj stepped
    exact {
      blocked := fun _ => safe.blocked rfl
      forked := by simp
      reaped := by simp [ParentPoint.reaped]
      killed := by simp
      returned := by simp
      died := by simp
      told := told
      sound := by
        intro c here
        cases forked with
        | true =>
          obtain rfl := Option.some.inj here
          exact ChildProcess.sound_forked _ _ _
        | false => cases here }
  | wait =>
    cases child with
    | none =>
      obtain rfl := Option.some.inj stepped
      exact safe.parent_moves rfl (fun _ => safe.blocked rfl) (by simp)
        (by simp [ParentPoint.reaped]) told
    | some c =>
      obtain ⟨e, ended, rfl⟩ := Option.map_eq_some_iff.mp stepped
      exact safe.parent_moves rfl (fun _ => safe.blocked rfl) (by simp)
        (by simp [ParentPoint.reaped, ended]) told
  | unblock result =>
    obtain rfl := Option.some.inj stepped
    exact safe.parent_moves rfl (by simp [ParentPoint.masked]) (by simp) safe.reaped told
  | report result =>
    cases report : x.report child result with
    | none =>
      simp only [parentNext, report] at stepped
      obtain rfl := Option.some.inj stepped
      refine safe.parent_ends signals rfl (.returned result) (by simp) ?_ (by simp)
      rintro _ same
      obtain rfl := ParentEnd.returned.inj same
      exact Or.inl ⟨rfl, report⟩
    | some outcome =>
      cases outcome with
      | error death =>
        simp only [parentNext, report] at stepped
        obtain rfl := Option.some.inj stepped
        refine safe.parent_ends signals rfl (.died death) (by simp) (by simp) ?_
        rintro _ same
        obtain rfl := ParentEnd.died.inj same
        exact ⟨result, rfl, report⟩
      | ok text =>
        simp only [parentNext, report] at stepped
        obtain rfl := Option.some.inj stepped
        obtain rfl : written = [] := told
        exact safe.parent_moves rfl (by simp [ParentPoint.masked]) (by simp) safe.reaped report
  | print rest result =>
    cases rest with
    | nil =>
      obtain rfl := Option.some.inj stepped
      refine safe.parent_ends signals rfl (.returned result) (by simp) ?_ (by simp)
      rintro _ same
      obtain rfl := ParentEnd.returned.inj same
      exact Or.inr rfl
    | cons c rest => cases stepped

theorem Safe.parent_writes (safe : s.Safe x) (going : s.parent.ended = none) {n : Nat}
    (stepped : s.parentWrites n = some s') : s'.Safe x := by
  obtain ⟨⟨signals, point, written, ended⟩, child⟩ := s
  obtain rfl : ended = none := going
  have told := safe.told
  cases point with
  | print rest result =>
    simp only [parentWrites, Option.ite_none_right_eq_some, Option.some.injEq] at stepped
    obtain ⟨_, rfl⟩ := stepped
    exact safe.parent_moves rfl (by simp [ParentPoint.masked]) (by simp) safe.reaped
      (by simpa [Told] using told)
  | block => cases stepped
  | fork => cases stepped
  | wait => cases stepped
  | unblock result => cases stepped
  | report result => cases stepped

theorem Safe.step (safe : s.Safe x) {act : Action} (stepped : s.step x act = some s') :
    s'.Safe x := by
  cases step_move stepped with
  | sendParent sig going => exact safe.signals rfl
  | sendChild sig here going => exact safe.child_moves here going ((safe.sound _ here).send sig)
  | deliverParent sig going deliverable => exact safe.deliver_parent deliverable
  | deliverChild sig here going deliverable =>
    exact safe.child_moves here going ((safe.sound _ here).deliver sig)
  | parent going next => exact safe.parent_next going next
  | write going written => exact safe.parent_writes going written
  | child here going free => exact safe.child_moves here going ((safe.sound _ here).next going)

/-- Nothing but a kill ends the parent before it has reaped its child, and the signals are masked
from fork on. -/
theorem Safe.ended_reaped (safe : s.Safe x) {c : ChildProcess} (here : s.child = some c)
    (gone : s.parent.ended ≠ none) : ∃ result, s.parent.point.reaped = some result := by
  obtain ⟨e, ended⟩ := Option.ne_none_iff_exists'.mp gone
  cases e with
  | returned result =>
    refine ⟨result, ?_⟩
    rcases safe.returned result ended with ⟨point, _⟩ | point
    · rw [point]
      rfl
    · rw [point]
      rfl
  | died death =>
    obtain ⟨result, point, _⟩ := safe.died death ended
    exact ⟨result, by rw [point]; rfl⟩
  | killed sig =>
    have unmasked := safe.killed sig ended
    have born := (safe.forked c here).1
    cases point : s.parent.point with
    | block => exact absurd point born
    | report result => exact ⟨result, rfl⟩
    | print rest result => exact ⟨result, rfl⟩
    | fork => simp [point, ParentPoint.masked] at unmasked
    | wait => simp [point, ParentPoint.masked] at unmasked
    | unblock result => simp [point, ParentPoint.masked] at unmasked

theorem Safe.reaped_child (safe : s.Safe x) {c : ChildProcess} (here : s.child = some c)
    (gone : s.parent.ended ≠ none) : c.ended ≠ none := by
  obtain ⟨result, reaped⟩ := safe.ended_reaped here gone
  intro going
  rw [safe.unreaped here going] at reaped
  cases reaped

end Safe

end System

theorem reached_safe {x : Setting} {blocked pending ignored : Interrupt → Bool} {s : System}
    (reaches : Reaches (System.step x) (.start blocked pending ignored) s) : s.Safe x :=
  reaches.invariant (fun _ _ _ safe stepped => safe.step stepped)
    (System.safe_start blocked pending ignored)

theorem bracket_none (trace : List Event) : trace.foldl bracket none = none := by
  induction trace with
  | nil => rfl
  | cons e trace ih =>
    have violated : bracket none e = none := by cases e <;> rfl
    rw [List.foldl_cons, violated, ih]

theorem ChildProcess.Sound.bracketed {w : World} {tasks : List Task} {c : ChildProcess}
    (sound : c.Sound w tasks) (ended : c.ended ≠ none) : Bracketed c.trace := by
  obtain ⟨e, ended⟩ := Option.ne_none_iff_exists'.mp ended
  rcases sound.ends e ended with ⟨sig, rfl⟩ | ⟨status, rfl⟩
  · rw [trace_starting (sound.early sig ended)]
    rfl
  · obtain ⟨r, made, trace, _⟩ := sound.exited ended
    rw [trace, made]
    exact (capture_child _ tasks).1.bracketed

theorem ChildProcess.Sound.unviolated {w : World} {tasks : List Task} {c : ChildProcess}
    (sound : c.Sound w tasks) : c.trace.foldl bracket (some none) ≠ none := by
  obtain ⟨rest, whole⟩ := sound.grows
  have bracketed := (capture_child (w.interrupted c.interrupt) tasks).1.bracketed
  rw [Bracketed, ← whole, List.foldl_append] at bracketed
  intro violated
  rw [violated, bracket_none] at bracketed
  cases bracketed

/-- Whenever SIGHUP, SIGINT and SIGTERM come and to whichever of the two processes: threads are
attached in the order of the list and one at a time, a child that has ended holds none, and the
parent does not end before its child. -/
theorem no_thread_left_held (x : Setting) (blocked pending ignored : Interrupt → Bool) {s : System}
    (reaches : Reaches (System.step x) (.start blocked pending ignored) s)
    {c : ChildProcess} (here : s.child = some c) :
    c.trace.foldl bracket (some none) ≠ none ∧ attached c.trace <+: x.tasks.map Task.tid ∧
      (c.ended ≠ none → Bracketed c.trace) ∧ (s.parent.ended ≠ none → c.ended ≠ none) := by
  have safe := reached_safe reaches
  have sound := safe.sound c here
  refine ⟨sound.unviolated, ?_, sound.bracketed, safe.reaped_child here⟩
  have once := (capture_child (x.world.interrupted c.interrupt) x.tasks).1.once
  exact (sound.grows.filterMap _).trans once

/-- One thread whose stack has one frame, and -n. -/
def singleFrame : Setting where
  world :=
    { createSpace := true
      attach := fun _ _ => none
      wait4 := fun _ _ => .stopped 19
      uptCreate := fun _ _ => true
      getReg := fun _ => (0, 0x401000)
      unwStep := fun _ => 0
      interruptAt := none }
  tasks := [taskCb (7, ['t'])]
  returns _ _ := true
  env := quietStackEnv none
  conf := { noParse := true }
  pid := 7

def unset (_ : Interrupt) : Bool := false

/-- SIGINT reaches the child while it holds the thread. -/
def interruptedRun : List Action :=
  [.parent true, .parent true] ++ List.replicate 8 .child ++
    [.send .child .SIGINT, .deliver .child .SIGINT] ++ List.replicate 13 .child

theorem no_thread_left_held_interrupted :
    ∃ s c, run (System.step singleFrame) (.start unset unset unset) interruptedRun = some s ∧
      s.child = some c ∧ c.ended = some (.exited 255) ∧
      c.trace.foldl bracket (some none) ≠ none ∧
      attached c.trace <+: singleFrame.tasks.map Task.tid ∧
      (c.ended ≠ none → Bracketed c.trace) ∧ (s.parent.ended ≠ none → c.ended ≠ none) :=
  ⟨_, _, rfl, rfl, rfl, no_thread_left_held singleFrame unset unset unset
    ⟨interruptedRun, rfl⟩ rfl⟩

/-- A child that returns has made the capture of the world whose interrupt comes when its handler
first ran. -/
theorem exited_child_captured (x : Setting) (blocked pending ignored : Interrupt → Bool)
    {s : System} (reaches : Reaches (System.step x) (.start blocked pending ignored) s)
    {c : ChildProcess} (here : s.child = some c) {status : Nat}
    (exited : c.ended = some (.exited status)) :
    let r := capture (x.world.interrupted c.interrupt) x.tasks
    c.trace = r.1.trace ∧ c.tasks x.tasks = r.2 ∧ status = exitStatus r.1.rc := by
  obtain ⟨r, rfl, refined⟩ := ((reached_safe reaches).sound c here).exited exited
  exact refined

theorem exited_child_captured_interrupted :
    ∃ s c, run (System.step singleFrame) (.start unset unset unset) interruptedRun = some s ∧
      s.child = some c ∧ c.ended = some (.exited 255) ∧
      let r := capture (singleFrame.world.interrupted c.interrupt) singleFrame.tasks
      c.trace = r.1.trace ∧ c.tasks singleFrame.tasks = r.2 ∧ 255 = exitStatus r.1.rc :=
  ⟨_, _, rfl, rfl, rfl, exited_child_captured singleFrame unset unset unset
    ⟨interruptedRun, rfl⟩ rfl rfl⟩

/-! ## What is printed -/

/-- What wait has handed over is how the child ended. -/
theorem System.Safe.handed_over {x : Setting} {s : System} (safe : s.Safe x) {e : ChildEnd}
    (reaped : s.parent.point.reaped = some (some e)) :
    ∃ c, s.child = some c ∧ c.ended = some e := by
  obtain ⟨c, here, ended⟩ := Option.map_eq_some_iff.mp (safe.reaped (some e) reaped)
  exact ⟨c, here, ended⟩

/-- What stack_it makes of the capture that no signal disturbs, where its exit status is 0. -/
def Setting.undisturbed (x : Setting) : Option (Except Death Str) :=
  let r := capture (x.world.interrupted none) x.tasks
  parent x.env x.conf x.pid r.2 (.exited (exitStatus r.1.rc))

/-- Behind a child that exits with 0 it is called, and told what an undisturbed capture finds. -/
theorem System.Safe.report {x : Setting} {s : System} (safe : s.Safe x)
    {result : Option ChildEnd} (reaped : s.parent.point.reaped = some result) :
    (result = some (.exited 0) ∧ x.report s.child result = x.undisturbed ∧
        x.undisturbed ≠ none) ∨
      (result ≠ some (.exited 0) ∧ x.report s.child result = none) := by
  cases result with
  | none =>
    refine Or.inr ⟨nofun, ?_⟩
    unfold Setting.report
    split
    · rename_i impossible
      cases impossible
    · rfl
  | some e =>
    obtain ⟨c, here, ended⟩ := safe.handed_over reaped
    rw [here]
    cases e with
    | exited status =>
      cases status with
      | zero =>
        obtain ⟨r, made, tasks_eq, clear⟩ := (safe.sound c here).undisturbed ended
        have told : x.undisturbed = Obstack.parent x.env x.conf x.pid r.2 (.exited 0) := by
          rw [Setting.undisturbed, ← made, clear]
        exact Or.inl ⟨rfl, by rw [told, ← tasks_eq]; rfl, by rw [told]; nofun⟩
      | succ status => exact Or.inr ⟨nofun, rfl⟩
    | waitFailed errno => exact Or.inr ⟨nofun, rfl⟩
    | signaled sig => exact Or.inr ⟨nofun, rfl⟩
    | unhandled => exact Or.inr ⟨nofun, rfl⟩

theorem System.Safe.printing {x : Setting} {s : System} (safe : s.Safe x) {rest : Str}
    {result : Option ChildEnd} (point : s.parent.point = .print rest result) :
    result = some (.exited 0) ∧ x.undisturbed = some (.ok (s.parent.written ++ rest)) := by
  have told := safe.told
  simp only [System.Told, point] at told
  rcases safe.report (by rw [point]; rfl) with ⟨zero, report, _⟩ | ⟨_, silent⟩
  · exact ⟨zero, report.symm.trans told⟩
  · rw [silent] at told
    cases told

theorem System.Safe.unwritten {x : Setting} {s : System} (safe : s.Safe x)
    (elsewhere : ∀ rest result, s.parent.point ≠ .print rest result) : s.parent.written = [] := by
  have told := safe.told
  unfold System.Told at told
  split at told
  · rename_i rest result point
    exact absurd point (elsewhere rest result)
  · exact told

/-- What has left the parent by now is a prefix of the report of an undisturbed capture. One that
returns behind a child with exit status 0 has printed the whole, behind any other nothing; and only
stack_it itself, of which there is no report then, ends it otherwise, signals aside. -/
structure Undisturbed (x : Setting) (p : ParentProcess) : Prop where
  prefixed : p.written = [] ∨ ∃ text, x.undisturbed = some (.ok text) ∧ p.written <+: text
  returned : ∀ result, p.ended = some (.returned result) →
    if result = some (.exited 0) then x.undisturbed = some (.ok p.written) else p.written = []
  died : ∀ death, p.ended = some (.died death) →
    x.undisturbed = some (.error death) ∧ p.written = []

theorem System.Safe.undisturbed {x : Setting} {s : System} (safe : s.Safe x) :
    Undisturbed x s.parent := by
  constructor
  case prefixed =>
    by_cases printing : ∃ rest result, s.parent.point = .print rest result
    · obtain ⟨rest, result, point⟩ := printing
      exact Or.inr ⟨_, (safe.printing point).2, List.prefix_append _ rest⟩
    · exact Or.inl (safe.unwritten fun rest result point => printing ⟨rest, result, point⟩)
  case returned =>
    intro result returned
    rcases safe.returned result returned with ⟨point, silent⟩ | point
    · rcases safe.report (by rw [point]; rfl) with ⟨_, report, called⟩ | ⟨other, _⟩
      · exact absurd (report.symm.trans silent) called
      · rw [if_neg other]
        exact safe.unwritten (by simp [point])
    · obtain ⟨zero, text⟩ := safe.printing point
      rw [if_pos zero, text, List.append_nil]
  case died =>
    intro death died
    obtain ⟨result, point, ended⟩ := safe.died death died
    rcases safe.report (by rw [point]; rfl) with ⟨_, report, _⟩ | ⟨_, silent⟩
    · exact ⟨report.symm.trans ended, safe.unwritten (by simp [point])⟩
    · rw [silent] at ended
      cases ended

end Obstack
