import Mathlib.Logic.Function.Basic
import Obstack.Child
import Obstack.Sampling
import Obstack.Symbolize

/-! The two processes of main under SIGHUP, SIGINT and SIGTERM. The parent blocks the three
before it forks and until it has reaped the child; the child unblocks them, installs its
handlers one after the other and captures. Signals are sent to either at any time. -/
namespace Obstack
open CText Transitions

/-- interrupt_signals -/
inductive Interrupt where
  | SIGHUP
  | SIGINT
  | SIGTERM
  deriving DecidableEq, Repr

def Interrupt.num : Interrupt → Nat
  | .SIGHUP => 1
  | .SIGINT => 2
  | .SIGTERM => 15

def interruptSignals : List Interrupt := [.SIGHUP, .SIGINT, .SIGTERM]

inductive Disposition where
  | default
  | ignored
  | setInterrupt
  deriving DecidableEq, Repr

/-- What the kernel keeps of the three signals for a process. -/
structure SigState where
  blocked : Interrupt → Bool
  pending : Interrupt → Bool
  action : Interrupt → Disposition

/-- What main meets before it forks: the outcomes of the child's calls, the tasks, which wait4 on
a thread comes back at all (one in uninterruptible sleep does not stop), and what stack_it is made
from. Every other call is taken to come back. -/
structure Setting where
  world : World
  tasks : List Task
  returns : Nat → Int → Bool
  env : StackEnv
  conf : Config
  pid : Nat

/-- The next statement of main in the parent; result is what wait returned, none for -1, and rest
what c_printf has still to write. -/
inductive ParentPoint where
  | block
  | fork
  | wait
  | unblock (result : Option ChildEnd)
  | report (result : Option ChildEnd)
  | print (rest : Str) (result : Option ChildEnd)
  deriving DecidableEq

namespace ParentPoint

/-- Between the two calls of sigprocmask. -/
def masked : ParentPoint → Bool
  | .fork | .wait | .unblock _ => true
  | _ => false

/-- Behind wait. -/
def reaped : ParentPoint → Option (Option ChildEnd)
  | .unblock result | .report result | .print _ result => some result
  | _ => none

end ParentPoint

/-- died is an end inside stack_it. -/
inductive ParentEnd where
  | killed (sig : Interrupt)
  | died (death : Death)
  | returned (result : Option ChildEnd)
  deriving DecidableEq

/-- written has left the process: every c_printf flushes what it prints. -/
structure ParentProcess where
  signals : SigState
  point : ParentPoint := .block
  written : Str := []
  ended : Option ParentEnd := none

inductive ChildPoint where
  | unblock
  | install (sigs : List Interrupt)
  | main (m : Machine)

/-- interrupt is the length of the trace when the flag was set. -/
structure ChildProcess where
  signals : SigState
  point : ChildPoint := .unblock
  interrupt : Option Nat := none
  ended : Option ChildEnd := none

namespace ChildProcess

def trace (c : ChildProcess) : List Event :=
  match c.point with
  | .main m => m.child.trace
  | _ => []

/-- What the shared pages hold of the tasks. -/
def tasks (before : List Task) (c : ChildProcess) : List Task :=
  match c.point with
  | .main m => m.visited ++ m.tasks
  | _ => before

/-- In a wait4 that does not come back. -/
def hangs (returns : Nat → Int → Bool) (c : ChildProcess) : Bool :=
  match c.point with
  | .main m =>
    match m.point with
    | .wait t (_ + 1) => !returns m.child.trace.length t.tid
    | _ => false
  | _ => false

end ChildProcess

structure System where
  parent : ParentProcess
  child : Option ChildProcess := none

inductive Party where
  | parent
  | child
  deriving DecidableEq, Repr

/-- A signal is sent or delivered, or a process goes on; forked tells whether fork succeeds. The
parent writes n characters of its text. -/
inductive Action where
  | send (party : Party) (sig : Interrupt)
  | deliver (party : Party) (sig : Interrupt)
  | parent (forked : Bool)
  | write (n : Nat)
  | child
  deriving DecidableEq, Repr

namespace SigState

def send (s : SigState) (sig : Interrupt) : SigState :=
  { s with pending := Function.update s.pending sig true }

def deliverable (s : SigState) (sig : Interrupt) : Bool := s.pending sig && !s.blocked sig

def delivered (s : SigState) (sig : Interrupt) : SigState :=
  { s with pending := Function.update s.pending sig false }

def install (s : SigState) (sig : Interrupt) : SigState :=
  { s with action := Function.update s.action sig .setInterrupt }

/-- sigprocmask(SIG_BLOCK) and sigprocmask(SIG_UNBLOCK) of all three. -/
def block (s : SigState) (blocked : Bool) : SigState := { s with blocked := fun _ => blocked }

/-- The child inherits mask and actions, and starts with nothing pending. -/
def forked (s : SigState) : SigState := { s with pending := fun _ => false }

end SigState

/-- The parent has no handler of its own for the three. -/
def ParentProcess.deliver (p : ParentProcess) (sig : Interrupt) : ParentProcess :=
  match p.signals.action sig with
  | .default => { p with signals := p.signals.delivered sig, ended := some (.killed sig) }
  | _ => { p with signals := p.signals.delivered sig }

def ChildProcess.deliver (c : ChildProcess) (sig : Interrupt) : ChildProcess :=
  match c.signals.action sig with
  | .default => { c with signals := c.signals.delivered sig, ended := some (.signaled sig.num) }
  | .ignored => { c with signals := c.signals.delivered sig }
  | .setInterrupt =>
    { c with signals := c.signals.delivered sig
             interrupt := some (c.interrupt.getD c.trace.length) }

section Next

variable (w : World) (tasks : List Task)

/-- From sigprocmask to the return of main. -/
def ChildProcess.next (c : ChildProcess) : ChildProcess :=
  match c.point with
  | .unblock => { c with signals := c.signals.block false, point := .install interruptSignals }
  | .install [] => { c with point := .main { tasks } }
  | .install (sig :: sigs) => { c with signals := c.signals.install sig, point := .install sigs }
  | .main m =>
    match m.next w c.interrupt.isSome with
    | some m => { c with point := .main m }
    | none => { c with ended := some (.exited (exitStatus m.child.rc)) }

end Next

section Step

variable (x : Setting)

/-- What stack_it is to print behind wait, or how it ends; none where it is not called. -/
def Setting.report (child : Option ChildProcess) (result : Option ChildEnd) :
    Option (Except Death Str) :=
  match child, result with
  | some c, some e => parent x.env x.conf x.pid (c.tasks x.tasks) e
  | _, _ => none

namespace System

/-- wait returns once the child has ended, and at once where there is none. -/
def parentNext (s : System) (forked : Bool) : Option System :=
  let p := s.parent
  match p.point with
  | .block =>
    some { s with parent := { p with signals := p.signals.block true, point := .fork } }
  | .fork =>
    some { parent := { p with point := .wait }
           child := if forked then some { signals := p.signals.forked } else none }
  | .wait =>
    match s.child with
    | none => some { s with parent := { p with point := .unblock none } }
    | some c => c.ended.map fun e => { s with parent := { p with point := .unblock (some e) } }
  | .unblock result =>
    some { s with parent := { p with signals := p.signals.block false, point := .report result } }
  | .report result =>
    match x.report s.child result with
    | none => some { s with parent := { p with ended := some (.returned result) } }
    | some (.error death) => some { s with parent := { p with ended := some (.died death) } }
    | some (.ok text) => some { s with parent := { p with point := .print text result } }
  | .print [] result => some { s with parent := { p with ended := some (.returned result) } }
  | .print (_ :: _) _ => none

/-- c_printf and its flush, in pieces of any length; no write fails. -/
def parentWrites (s : System) (n : Nat) : Option System :=
  match s.parent.point with
  | .print rest result =>
    if 0 < n ∧ rest ≠ [] then
      some { s with parent := { s.parent with point := .print (rest.drop n) result
                                              written := s.parent.written ++ rest.take n } }
    else none
  | _ => none

/-- none where the process has ended, where it waits, or where a signal is not to be delivered. -/
def step (s : System) : Action → Option System
  | .send .parent sig =>
    if s.parent.ended = none then
      some { s with parent := { s.parent with signals := s.parent.signals.send sig } }
    else none
  | .send .child sig =>
    match s.child with
    | some c =>
      if c.ended = none then some { s with child := some { c with signals := c.signals.send sig } }
      else none
    | none => none
  | .deliver .parent sig =>
    if s.parent.ended = none ∧ s.parent.signals.deliverable sig = true then
      some { s with parent := s.parent.deliver sig }
    else none
  | .deliver .child sig =>
    match s.child with
    | some c =>
      if c.ended = none ∧ c.signals.deliverable sig = true then
        some { s with child := some (c.deliver sig) }
      else none
    | none => none
  | .parent forked => if s.parent.ended = none then s.parentNext x forked else none
  | .write n => if s.parent.ended = none then s.parentWrites n else none
  | .child =>
    match s.child with
    | some c =>
      if c.ended = none ∧ c.hangs x.returns = false then
        some { s with child := some (c.next x.world x.tasks) }
      else none
    | none => none

end System

end Step

/-- Before the parent blocks the signals: any mask, anything pending, and each signal either
ignored, as under nohup, or left at its default. -/
def System.start (blocked pending ignored : Interrupt → Bool) : System where
  parent :=
    { signals := { blocked, pending, action := fun sig => if ignored sig then .ignored else .default } }

namespace System

section Move

variable (x : Setting) (s : System)

/-- What a step can be. -/
inductive Move : Action → System → Prop where
  | sendParent (sig : Interrupt) (going : s.parent.ended = none) :
    Move (.send .parent sig)
      { s with parent := { s.parent with signals := s.parent.signals.send sig } }
  | sendChild (sig : Interrupt) {c : ChildProcess} (here : s.child = some c)
    (going : c.ended = none) :
    Move (.send .child sig) { s with child := some { c with signals := c.signals.send sig } }
  | deliverParent (sig : Interrupt) (going : s.parent.ended = none)
    (deliverable : s.parent.signals.deliverable sig = true) :
    Move (.deliver .parent sig) { s with parent := s.parent.deliver sig }
  | deliverChild (sig : Interrupt) {c : ChildProcess} (here : s.child = some c)
    (going : c.ended = none) (deliverable : c.signals.deliverable sig = true) :
    Move (.deliver .child sig) { s with child := some (c.deliver sig) }
  | parent {forked : Bool} {s' : System} (going : s.parent.ended = none)
    (next : s.parentNext x forked = some s') : Move (.parent forked) s'
  | write {n : Nat} {s' : System} (going : s.parent.ended = none)
    (written : s.parentWrites n = some s') : Move (.write n) s'
  | child {c : ChildProcess} (here : s.child = some c) (going : c.ended = none)
    (free : c.hangs x.returns = false) :
    Move .child { s with child := some (c.next x.world x.tasks) }

end Move

theorem step_move {x : Setting} {s s' : System} {act : Action} (stepped : s.step x act = some s') :
    Move x s act s' := by
  cases act with
  | send party sig =>
    cases party with
    | parent =>
      simp only [step, Option.ite_none_right_eq_some, Option.some.injEq] at stepped
      obtain ⟨going, rfl⟩ := stepped
      exact .sendParent sig going
    | child =>
      cases here : s.child with
      | none => simp [step, here] at stepped
      | some c =>
        simp only [step, here, Option.ite_none_right_eq_some, Option.some.injEq] at stepped
        obtain ⟨going, rfl⟩ := stepped
        exact .sendChild sig here going
  | deliver party sig =>
    cases party with
    | parent =>
      simp only [step, Option.ite_none_right_eq_some, Option.some.injEq] at stepped
      obtain ⟨⟨going, deliverable⟩, rfl⟩ := stepped
      exact .deliverParent sig going deliverable
    | child =>
      cases here : s.child with
      | none => simp [step, here] at stepped
      | some c =>
        simp only [step, here, Option.ite_none_right_eq_some, Option.some.injEq] at stepped
        obtain ⟨⟨going, deliverable⟩, rfl⟩ := stepped
        exact .deliverChild sig here going deliverable
  | parent forked =>
    simp only [step, Option.ite_none_right_eq_some] at stepped
    exact .parent stepped.1 stepped.2
  | write n =>
    simp only [step, Option.ite_none_right_eq_some] at stepped
    exact .write stepped.1 stepped.2
  | child =>
    cases here : s.child with
    | none => simp [step, here] at stepped
    | some c =>
      simp only [step, here, Option.ite_none_right_eq_some, Option.some.injEq] at stepped
      obtain ⟨⟨going, free⟩, rfl⟩ := stepped
      exact .child here going free

end System

/-! ## The child -/

namespace ChildProcess

/-- The three signals can only kill the child before it attaches to anybody; from then on it is
on its way to where the capture ends whose interrupt comes when the handler set the flag. -/
structure Sound (w : World) (tasks : List Task) (c : ChildProcess) : Prop where
  installed : ∀ sigs, c.point = .install sigs →
    ∀ sig, sig ∈ sigs ∨ c.signals.action sig = .setInterrupt
  handled : ∀ m, c.point = .main m → ∀ sig, c.signals.action sig = .setInterrupt
  early : ∀ sig, c.ended = some (.signaled sig) → ∀ m, c.point ≠ .main m
  last : ∀ status, c.ended = some (.exited status) →
    ∃ m, c.point = .main m ∧ m.point = .done ∧ status = exitStatus m.child.rc
  ends : ∀ e, c.ended = some e → (∃ sig, e = .signaled sig) ∨ ∃ status, e = .exited status
  seen : ∀ time, c.interrupt = some time → time ≤ c.trace.length
  honest : (w.interrupted c.interrupt).Honest c.trace
  faithful : ∀ m, c.point = .main m → ∀ time, (w.interrupted time).Honest m.child.trace →
    m.finish (w.interrupted time) = capture (w.interrupted time) tasks

section Sound

variable {w : World} {tasks : List Task} {c : ChildProcess}

theorem interruptSignals_all (sig : Interrupt) : sig ∈ interruptSignals := by
  cases sig <;> simp [interruptSignals]

theorem sound_forked (w : World) (tasks : List Task) (s : SigState) :
    Sound w tasks { signals := s } where
  installed := by simp
  handled := by simp
  early := by simp
  last := by simp
  ends := by simp
  seen := by simp
  honest := by simp [World.Honest, trace]
  faithful := by simp

/-- The readings so far were made before the flag was set, so the world in which it is set now
explains them too. -/
theorem honest_now (honest : (w.interrupted c.interrupt).Honest c.trace) :
    (w.interrupted (some (c.interrupt.getD c.trace.length))).Honest c.trace := by
  cases before : c.interrupt with
  | some time =>
    rw [before] at honest
    exact honest
  | none =>
    rw [before] at honest
    intro n set read
    have inside : n < c.trace.length := (List.getElem?_eq_some_iff.mp read).1
    rw [honest n set read]
    simp only [World.interrupted, World.interrupt, Option.getD_none]
    exact (decide_eq_false (Nat.not_le.mpr inside)).symm

theorem seen_now (seen : ∀ time, c.interrupt = some time → time ≤ c.trace.length) :
    c.interrupt.getD c.trace.length ≤ c.trace.length := by
  cases before : c.interrupt with
  | some time => exact seen time before
  | none => exact Nat.le_refl _

theorem Sound.deliver (sound : c.Sound w tasks) (sig : Interrupt) :
    (c.deliver sig).Sound w tasks := by
  cases action : c.signals.action sig with
  | default =>
    have early : ∀ m, c.point ≠ .main m := by
      intro m at_main
      rw [sound.handled m at_main sig] at action
      cases action
    simp only [ChildProcess.deliver, action]
    exact {
      installed := sound.installed
      handled := sound.handled
      early := fun _ _ => early
      last := by simp
      ends := by simp
      seen := sound.seen
      honest := sound.honest
      faithful := sound.faithful }
  | ignored =>
    simp only [ChildProcess.deliver, action]
    exact {
      installed := sound.installed
      handled := sound.handled
      early := sound.early
      last := sound.last
      ends := sound.ends
      seen := sound.seen
      honest := sound.honest
      faithful := sound.faithful }
  | setInterrupt =>
    simp only [ChildProcess.deliver, action]
    exact {
      installed := sound.installed
      handled := sound.handled
      early := sound.early
      last := sound.last
      ends := sound.ends
      seen := by
        intro time set
        obtain rfl := Option.some.inj set
        exact seen_now sound.seen
      honest := honest_now sound.honest
      faithful := sound.faithful }

theorem Sound.send (sound : c.Sound w tasks) (sig : Interrupt) :
    Sound w tasks { c with signals := c.signals.send sig } where
  installed := sound.installed
  handled := sound.handled
  early := sound.early
  last := sound.last
  ends := sound.ends
  seen := sound.seen
  honest := sound.honest
  faithful := sound.faithful

/-- Between fork and the capture no call is made that a trace records. -/
theorem sound_starting {signals : SigState} {sigs : List Interrupt} {interrupt : Option Nat}
    (installed : ∀ sig, sig ∈ sigs ∨ signals.action sig = .setInterrupt)
    (seen : ∀ time, interrupt = some time → time ≤ 0) :
    Sound w tasks { signals, point := .install sigs, interrupt } where
  installed := by
    intro left at_install sig
    obtain rfl := ChildPoint.install.inj at_install
    exact installed sig
  handled := by simp
  early := by simp
  last := by simp
  ends := by simp
  seen := seen
  honest := by simp [World.Honest, trace]
  faithful := by simp

theorem sound_main {signals : SigState} {m : Machine} {interrupt : Option Nat}
    (handled : ∀ sig, signals.action sig = .setInterrupt)
    (seen : ∀ time, interrupt = some time → time ≤ m.child.trace.length)
    (honest : (w.interrupted interrupt).Honest m.child.trace)
    (faithful : ∀ time, (w.interrupted time).Honest m.child.trace →
      m.finish (w.interrupted time) = capture (w.interrupted time) tasks) :
    Sound w tasks { signals, point := .main m, interrupt } where
  installed := by simp
  handled := fun _ _ => handled
  early := by simp
  last := by simp
  ends := by simp
  seen := seen
  honest := honest
  faithful := by
    intro m' at_main
    obtain rfl := ChildPoint.main.inj at_main
    exact faithful

/-- What the loop reads is what the world says of that moment. -/
theorem flag_now (seen : ∀ time, c.interrupt = some time → time ≤ c.trace.length) :
    c.interrupt.isSome = (w.interrupted c.interrupt).interrupt c.trace.length := by
  cases set : c.interrupt with
  | none => rfl
  | some time =>
    simp only [World.interrupted, World.interrupt, Option.isSome_some]
    exact (decide_eq_true (seen time set)).symm

theorem next_done {flag : Bool} {m : Machine} (stuck : m.next w flag = none) : m.point = .done := by
  by_contra going
  obtain ⟨m', stepped⟩ := Machine.next_progress w flag going
  rw [stepped] at stuck
  cases stuck

theorem Sound.next (sound : c.Sound w tasks) (going : c.ended = none) :
    (c.next w tasks).Sound w tasks := by
  obtain ⟨signals, point, interrupt, ended⟩ := c
  obtain rfl : ended = none := going
  cases point with
  | unblock =>
    exact sound_starting (fun sig => Or.inl (interruptSignals_all sig)) sound.seen
  | install sigs =>
    cases sigs with
    | nil =>
      have handled : ∀ sig, signals.action sig = .setInterrupt := fun sig =>
        (sound.installed [] rfl sig).resolve_left List.not_mem_nil
      exact sound_main handled sound.seen (by simp [World.Honest])
        (fun time _ => Machine.finish_start (w.interrupted time) tasks)
    | cons first sigs =>
      refine sound_starting (fun sig => ?_) sound.seen
      simp only [SigState.install, Function.update_apply]
      split
      · exact Or.inr rfl
      · rename_i other
        exact (sound.installed (first :: sigs) rfl sig).imp_left fun member =>
          (List.mem_cons.mp member).resolve_left other
  | main m =>
    cases stepped : m.next w interrupt.isSome with
    | some m' =>
      simp only [ChildProcess.next, stepped]
      obtain ⟨⟨calls, grown, single, read⟩, _⟩ := Machine.next_effect stepped
      have flag := flag_now (w := w) sound.seen
      refine sound_main (sound.handled m rfl) (fun time set => ?_) ?_ fun time honest => ?_
      · rw [grown, List.length_append]
        exact Nat.le_add_right_of_le (sound.seen time set)
      · rw [grown]
        exact sound.honest.append single fun set member => (read set member).trans flag
      · have before : (w.interrupted time).Honest m.child.trace := by
          rw [grown] at honest
          exact honest.before
        exact (Machine.next_finish time stepped honest).trans (sound.faithful m rfl time before)
    | none =>
      simp only [ChildProcess.next, stepped]
      exact {
        installed := by simp
        handled := sound.handled
        early := by simp
        last := by
          intro status exited
          obtain rfl := ChildEnd.exited.inj (Option.some.inj exited)
          exact ⟨m, rfl, next_done stepped, rfl⟩
        ends := fun e ended => Or.inr ⟨_, (Option.some.inj ended).symm⟩
        seen := sound.seen
        honest := sound.honest
        faithful := sound.faithful }

theorem Sound.main_grows (sound : c.Sound w tasks) {m : Machine} (at_main : c.point = .main m) :
    c.trace <+: (capture (w.interrupted c.interrupt) tasks).1.trace := by
  have honest := sound.honest
  rw [trace, at_main] at honest ⊢
  rw [← sound.faithful m at_main c.interrupt honest]
  exact Machine.finish_grows _ m honest

theorem trace_starting (starting : ∀ m, c.point ≠ .main m) : c.trace = [] := by
  unfold trace
  split
  · rename_i m at_main
    exact absurd at_main (starting m)
  · rfl

theorem Sound.grows (sound : c.Sound w tasks) :
    c.trace <+: (capture (w.interrupted c.interrupt) tasks).1.trace := by
  by_cases at_main : ∃ m, c.point = .main m
  · obtain ⟨m, at_main⟩ := at_main
    exact sound.main_grows at_main
  · rw [trace_starting (not_exists.mp at_main)]
    exact List.nil_prefix

/-- A child that returns from main has made the capture, whenever the flag was set. -/
theorem Sound.exited (sound : c.Sound w tasks) {status : Nat}
    (exited : c.ended = some (.exited status)) :
    ∃ r, r = capture (w.interrupted c.interrupt) tasks ∧
      c.trace = r.1.trace ∧ c.tasks tasks = r.2 ∧ status = exitStatus r.1.rc := by
  obtain ⟨m, at_main, done, status_eq⟩ := sound.last status exited
  have honest := sound.honest
  rw [trace, at_main] at honest
  refine ⟨_, sound.faithful m at_main c.interrupt honest, ?_⟩
  rw [Machine.finish, done]
  refine ⟨?_, ?_, status_eq⟩
  · rw [trace, at_main]
  · rw [ChildProcess.tasks, at_main]

/-- Under exit status 0 no reading of the flag found it set. -/
theorem exited_clear (clear : exitStatus (capture w tasks).1.rc = 0) :
    (w.interrupted none).Honest (capture w tasks).1.trace := by
  have absent := capture_clear w tasks clear
  intro n set read
  cases set with
  | true => exact absurd (List.mem_of_getElem? read) absent
  | false => rfl

/-- Then the capture is the one that no signal disturbs. -/
theorem Sound.undisturbed (sound : c.Sound w tasks) (exited : c.ended = some (.exited 0)) :
    ∃ r, r = capture (w.interrupted none) tasks ∧
      c.tasks tasks = r.2 ∧ exitStatus r.1.rc = 0 := by
  obtain ⟨m, at_main, done, status⟩ := sound.last 0 exited
  have honest := sound.honest
  rw [trace, at_main] at honest
  have made := sound.faithful m at_main c.interrupt honest
  have ended : ∀ w', m.finish w' = (m.child, m.visited ++ m.tasks) := by
    intro w'
    rw [Machine.finish, done]
  rw [ended] at made
  have clear : (w.interrupted none).Honest m.child.trace := by
    have child : m.child = (capture (w.interrupted c.interrupt) tasks).1 := by rw [← made]
    rw [child] at status ⊢
    exact exited_clear status.symm
  refine ⟨_, sound.faithful m at_main none clear, ?_⟩
  rw [ended]
  refine ⟨?_, status.symm⟩
  rw [ChildProcess.tasks, at_main]

end Sound

end ChildProcess

end Obstack
