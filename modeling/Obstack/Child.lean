import Obstack.Capture
import Obstack.Lib.Transitions

/-! The child of fork, one call at a time, so that a signal handler may set the flag between any
two of its steps. A run that has seen the flag set from some event on is the capture of a world
in which the interrupt came then. -/
namespace Obstack
open CText Transitions

/-- Between two steps: the call that comes next, with the locals it needs. -/
inductive Point where
  | create
  | head
  | attach (t : Task)
  | wait (t : Task) (waitLoops : Nat)
  | upt (t : Task)
  | reg (t : Task) (addrs : List ULong) (room : Nat) (fits : addrs.length + room = 256)
  | step (t : Task) (addrs : List ULong) (room : Nat) (fits : addrs.length + room = 256)
  | guards (scheduled : List Guard) (t : Task)
  | check
  | destroy
  | done
  deriving DecidableEq

/-- The tasks behind ti and those before it, with what the visits left in them. -/
structure Machine where
  point : Point := .create
  visited : List Task := []
  tasks : List Task
  child : Child := {}

/-- Steps that are left at most, those for the tasks behind ti aside. -/
def Point.cost : Point → Nat
  | .create => 4
  | .head => 3
  | .attach _ => 600
  | .wait _ waitLoops => 560 + waitLoops
  | .upt _ => 550
  | .reg _ _ room _ => 2 * room + 10
  | .step _ _ room _ => 2 * room + 11
  | .guards scheduled _ => scheduled.length + 4
  | .check => 2
  | .destroy => 1
  | .done => 0

namespace Machine

def cost (m : Machine) : Nat := 600 * m.tasks.length + m.point.cost

def sampled (t : Task) (addrs : List ULong) (bounded : addrs.length ≤ 256) : Task :=
  { t with addrs := addrs, bounded := bounded }

theorem room_left {addrs : List ULong} {room : Nat} (fits : addrs.length + room = 256) :
    addrs.length ≤ 256 := by
  omega

theorem room_taken {addrs : List ULong} {room : Nat} {uip : ULong}
    (fits : addrs.length + (room + 1) = 256) : (addrs ++ [uip]).length + room = 256 := by
  rw [List.length_append, List.length_singleton]
  omega

def entered (t : Task) : List Guard := [.detach t.tid, .countTask, .clearRc]

/-- The next call, or a step inside the process; flag is the interrupt flag. None at the end. -/
def next (w : World) (flag : Bool) (m : Machine) : Option Machine :=
  let s := m.child
  let now := s.trace.length
  match m.point with
  | .create =>
    if w.createSpace then some { m with point := .head, child := s.log (.createSpace true) }
    else some { m with point := .done, child := { s.log (.createSpace false) with rc := -1 } }
  | .head =>
    match m.tasks with
    | [] => some { m with point := .check }
    | t :: tasks =>
      if flag then some { m with point := .check, child := s.log (.readFlag flag) }
      else some { m with point := .attach t, tasks := tasks, child := s.log (.readFlag flag) }
  | .attach t =>
    match w.attach now t.tid with
    | some _ =>
      some { m with point := .guards [.countTask, .clearRc] t
                    child := { s.log (.attach t.tid false) with rc := -1 } }
    | none =>
      some { m with point := .wait t 10, child := { s.log (.attach t.tid true) with rc := -1 } }
  | .wait t 0 => some { m with point := .upt t }
  | .wait t (waitLoops + 1) =>
    match waitVerdict (w.wait4 now t.tid) with
    | some rc => some { m with point := .upt t, child := { s.log .wait with rc := rc } }
    | none => some { m with point := .wait t waitLoops, child := s.log .wait }
  | .upt t =>
    if s.rc ≠ 0 then some { m with point := .guards (entered t) t }
    else if w.uptCreate now t.tid then
      some { m with point := .reg t [] 256 rfl, child := s.log (.uptCreate true) }
    else some { m with point := .guards (entered t) t
                       child := { s.log (.uptCreate false) with rc := -1 } }
  | .reg t addrs 0 fits =>
    some { m with point := .guards (.uptDestroy :: entered t) (sampled t addrs (room_left fits)) }
  | .reg t addrs (room + 1) fits =>
    let (rc, uip) := w.getReg now
    let s := { s.log .getReg with rc := rc }
    if rc < 0 then
      some { m with point := .guards (.uptDestroy :: entered t) (sampled t addrs (room_left fits))
                    child := s }
    else if room = 0 then
      some { m with point := .guards (.uptDestroy :: entered t)
                      (sampled t (addrs ++ [uip]) (room_left (room_taken fits)))
                    child := s }
    else some { m with point := .step t (addrs ++ [uip]) room (room_taken fits), child := s }
  | .step t addrs room fits =>
    let rc := w.unwStep now
    let s := { s.log .unwStep with rc := rc }
    if rc > 0 then some { m with point := .reg t addrs room fits, child := s }
    else some { m with point := .guards (.uptDestroy :: entered t) (sampled t addrs (room_left fits))
                       child := s }
  | .guards [] t => some { m with point := .head, visited := m.visited ++ [t] }
  | .guards (guard :: scheduled) t =>
    some { m with point := .guards scheduled t, child := guard.run s }
  | .check =>
    let s := s.log (.readFlag flag)
    some { m with point := .destroy, child := if flag then { s with rc := -1 } else s }
  | .destroy => some { m with point := .done, child := s.log .destroySpace }
  | .done => none

end Machine

/-! ## What is still to come -/

/-- The same outcomes, with the interrupt at another time. -/
def World.interrupted (w : World) (time : Option Nat) : World := { w with interruptAt := time }

/-- Each reading of the flag in the trace is that of this world. -/
def World.Honest (w : World) (events : List Event) : Prop :=
  ∀ n set, events[n]? = some (.readFlag set) → set = w.interrupt n

namespace World.Honest

variable {w : World} {events calls : List Event}

theorem before (honest : w.Honest (events ++ calls)) : w.Honest events := by
  intro n set here
  obtain ⟨inside, _⟩ := List.getElem?_eq_some_iff.mp here
  exact honest n set (by rw [List.getElem?_append_left inside, here])

theorem append (honest : w.Honest events) (single : calls.length ≤ 1)
    (read : ∀ set, Event.readFlag set ∈ calls → set = w.interrupt events.length) :
    w.Honest (events ++ calls) := by
  intro n set here
  rcases Nat.lt_or_ge n events.length with old | new
  · exact honest n set (by rwa [List.getElem?_append_left old] at here)
  · rw [List.getElem?_append_right new] at here
    obtain ⟨inside, _⟩ := List.getElem?_eq_some_iff.mp here
    have now : n = events.length := by omega
    rw [read set (List.mem_of_getElem? here), now]

end World.Honest

namespace Machine

section Finish

variable (w : World)

/-- The statements behind the loop. -/
def finishCheck (s : Child) : Child :=
  let set := w.interrupt s.trace.length
  let s := s.log (.readFlag set)
  (if set then { s with rc := -1 } else s).log .destroySpace

def finishLoop (visited tasks : List Task) (s : Child) : Child × List Task :=
  let r := captureLoop w tasks s
  (finishCheck w r.1, visited ++ r.2)

theorem stack_bounded (addrs : Stack) : addrs.1.length ≤ 256 := addrs.2

def finishVisit (m : Machine) (t : Task) (r : Child × List Guard × Option Stack) :
    Child × List Task :=
  let t := match r.2.2 with
    | some addrs => sampled t addrs.1 (stack_bounded addrs)
    | none => t
  finishLoop w (m.visited ++ [t]) m.tasks (leave r.2.1 r.1)

/-- The frames of unwind behind the first. -/
def unwindStep (room : Nat) (s : Child) : Child × List ULong :=
  let rc := w.unwStep s.trace.length
  let s := { s.log .unwStep with rc := rc }
  if rc > 0 then unwind w room s else (s, [])

theorem unwindStep_length (room : Nat) (s : Child) : (unwindStep w room s).2.length ≤ room := by
  simp only [unwindStep]
  split
  · exact unwind_length w room _
  · exact Nat.zero_le _

theorem frames_fit {addrs more : List ULong} {room : Nat} (fits : addrs.length + room = 256)
    (short : more.length ≤ room) : (addrs ++ more).length ≤ 256 := by
  rw [List.length_append]
  omega

/-- Where the capture that is under way ends. -/
def finish (m : Machine) : Child × List Task :=
  match m.point with
  | .create =>
    if w.createSpace then finishLoop w m.visited m.tasks (m.child.log (.createSpace true))
    else ({ m.child.log (.createSpace false) with rc := -1 }, m.visited ++ m.tasks)
  | .head => finishLoop w m.visited m.tasks m.child
  | .attach t =>
    let r := visit w t m.child
    finishLoop w (m.visited ++ [r.2]) m.tasks r.1
  | .wait t waitLoops =>
    finishVisit w m t (sampleBody w t.tid (entered t) (waitStop w t.tid waitLoops m.child))
  | .upt t => finishVisit w m t (sampleBody w t.tid (entered t) m.child)
  | .reg t addrs room fits =>
    let r := unwind w room m.child
    finishVisit w m t (r.1, .uptDestroy :: entered t,
      some ⟨addrs ++ r.2, frames_fit fits (unwind_length w room m.child)⟩)
  | .step t addrs room fits =>
    let r := unwindStep w room m.child
    finishVisit w m t (r.1, .uptDestroy :: entered t,
      some ⟨addrs ++ r.2, frames_fit fits (unwindStep_length w room m.child)⟩)
  | .guards scheduled t => finishLoop w (m.visited ++ [t]) m.tasks (leave scheduled m.child)
  | .check => (finishCheck w m.child, m.visited ++ m.tasks)
  | .destroy => (m.child.log .destroySpace, m.visited ++ m.tasks)
  | .done => (m.child, m.visited ++ m.tasks)

end Finish

theorem finish_start (w : World) (tasks : List Task) : finish w { tasks } = capture w tasks := by
  simp only [finish, capture]
  cases w.createSpace with
  | false => rfl
  | true => rfl

section Frames

variable (w : World) (t : Task) {addrs : List ULong} {room : Nat} (fits : addrs.length + room = 256)
  (visited tasks : List Task) {s : Child} {r : Child × List ULong}

theorem finish_reg (frames : unwind w room s = r) (short : r.2.length ≤ room) :
    finish w ⟨.reg t addrs room fits, visited, tasks, s⟩ =
      finishLoop w (visited ++ [sampled t (addrs ++ r.2) (frames_fit fits short)]) tasks
        (leave (.uptDestroy :: entered t) r.1) := by
  subst frames
  rfl

theorem finish_step (frames : unwindStep w room s = r) (short : r.2.length ≤ room) :
    finish w ⟨.step t addrs room fits, visited, tasks, s⟩ =
      finishLoop w (visited ++ [sampled t (addrs ++ r.2) (frames_fit fits short)]) tasks
        (leave (.uptDestroy :: entered t) r.1) := by
  subst frames
  rfl

end Frames

section Next

variable {w : World} {flag : Bool} {m m' : Machine}

theorem honest_last {s : Child} (honest : w.Honest (s.log (.readFlag flag)).trace) :
    flag = w.interrupt s.trace.length := by
  apply honest s.trace.length flag
  simp [Child.log]

theorem unwind_succ (w : World) (room : Nat) (s : Child) : unwind w (room + 1) s =
    let rc := (w.getReg s.trace.length).1
    let s' := { s.log .getReg with rc := rc }
    if rc < 0 then (s', [])
    else if room = 0 then (s', [(w.getReg s.trace.length).2])
    else ((unwindStep w room s').1, (w.getReg s.trace.length).2 :: (unwindStep w room s').2) := by
  simp only [unwind, unwindStep]
  split
  · rfl
  · split
    · rfl
    · split
      · rfl
      · rfl

section Sample

variable {t : Task} {addrs : List ULong} {room : Nat} {fits : addrs.length + room = 256}
  {visited tasks : List Task} {s : Child} (time : Option Nat)

theorem upt_finish (stepped : next w flag ⟨.upt t, visited, tasks, s⟩ = some m') :
    finish (w.interrupted time) m' = finish (w.interrupted time) ⟨.upt t, visited, tasks, s⟩ := by
  simp only [next] at stepped
  by_cases failed : s.rc ≠ 0
  · rw [if_pos failed] at stepped
    obtain rfl := Option.some.inj stepped
    simp only [finish, sampleBody, if_pos failed]
    rfl
  · rw [if_neg failed] at stepped
    cases created : w.uptCreate s.trace.length t.tid with
    | false =>
      rw [created] at stepped
      obtain rfl := Option.some.inj stepped
      simp only [finish, sampleBody, if_neg failed, World.interrupted, created]
      rfl
    | true =>
      rw [created] at stepped
      obtain rfl := Option.some.inj stepped
      simp only [finish, sampleBody, if_neg failed, World.interrupted, created]
      rfl

/-- A frame is taken from what unwind has still to give, or nothing is left. -/
theorem reg_finish (stepped : next w flag ⟨.reg t addrs room fits, visited, tasks, s⟩ = some m') :
    finish (w.interrupted time) m' =
      finish (w.interrupted time) ⟨.reg t addrs room fits, visited, tasks, s⟩ := by
  cases room with
  | zero =>
    obtain rfl := Option.some.inj stepped
    have frames : unwind (w.interrupted time) 0 s = (s, []) := rfl
    rw [finish_reg _ t fits visited tasks frames (Nat.zero_le _)]
    simp only [List.append_nil]
    rfl
  | succ room =>
    simp only [next] at stepped
    have frames := unwind_succ (w.interrupted time) room s
    have same : (w.interrupted time).getReg = w.getReg := rfl
    rw [same] at frames
    by_cases failed : (w.getReg s.trace.length).1 < 0
    · rw [if_pos failed] at stepped
      obtain rfl := Option.some.inj stepped
      simp only [if_pos failed] at frames
      rw [finish_reg _ t fits visited tasks frames (Nat.zero_le _)]
      simp only [List.append_nil]
      rfl
    · rw [if_neg failed] at stepped
      simp only [if_neg failed] at frames
      by_cases full : room = 0
      · rw [if_pos full] at stepped
        obtain rfl := Option.some.inj stepped
        simp only [if_pos full] at frames
        rw [finish_reg _ t fits visited tasks frames (Nat.succ_pos _)]
        rfl
      · rw [if_neg full] at stepped
        obtain rfl := Option.some.inj stepped
        simp only [if_neg full] at frames
        have short := unwindStep_length (w.interrupted time) room
          { s.log .getReg with rc := (w.getReg s.trace.length).1 }
        rw [finish_reg _ t fits visited tasks frames (Nat.succ_le_succ short),
          finish_step _ t (by simp; omega) visited tasks rfl short]
        simp only [List.append_assoc, List.singleton_append]

theorem step_finish (stepped : next w flag ⟨.step t addrs room fits, visited, tasks, s⟩ = some m') :
    finish (w.interrupted time) m' =
      finish (w.interrupted time) ⟨.step t addrs room fits, visited, tasks, s⟩ := by
  simp only [next] at stepped
  by_cases more : w.unwStep s.trace.length > 0
  · have frames : unwindStep (w.interrupted time) room s =
        unwind (w.interrupted time) room
          { s.log .unwStep with rc := w.unwStep s.trace.length } := if_pos more
    rw [if_pos more] at stepped
    obtain rfl := Option.some.inj stepped
    have short := unwind_length (w.interrupted time) room
      { s.log .unwStep with rc := w.unwStep s.trace.length }
    rw [finish_step _ t fits visited tasks frames short,
      finish_reg _ t fits visited tasks rfl short]
  · have frames : unwindStep (w.interrupted time) room s =
        ({ s.log .unwStep with rc := w.unwStep s.trace.length }, []) := if_neg more
    rw [if_neg more] at stepped
    obtain rfl := Option.some.inj stepped
    rw [finish_step _ t fits visited tasks frames (Nat.zero_le _)]
    simp only [List.append_nil]
    rfl

end Sample

/-- No step changes where the capture ends, as long as the flag is read as the world has it. -/
theorem next_finish (time : Option Nat) (stepped : m.next w flag = some m')
    (honest : (w.interrupted time).Honest m'.child.trace) :
    finish (w.interrupted time) m' = finish (w.interrupted time) m := by
  obtain ⟨point, visited, tasks, s⟩ := m
  cases point with
  | create =>
    simp only [next] at stepped
    cases created : w.createSpace with
    | false =>
      rw [created] at stepped
      obtain rfl := Option.some.inj stepped
      simp only [finish, World.interrupted, created]
      rfl
    | true =>
      rw [created] at stepped
      obtain rfl := Option.some.inj stepped
      simp only [finish, World.interrupted, created]
      rfl
  | head =>
    cases tasks with
    | nil =>
      obtain rfl := Option.some.inj stepped
      rfl
    | cons t tasks =>
      simp only [next] at stepped
      cases flag with
      | true =>
        obtain rfl := Option.some.inj stepped
        have set := honest_last honest
        simp only [finish, finishLoop, captureLoop, ← set]
        rfl
      | false =>
        obtain rfl := Option.some.inj stepped
        have set := honest_last honest
        simp only [finish, finishLoop, captureLoop, ← set]
        simp
  | attach t =>
    simp only [next] at stepped
    cases attached : w.attach s.trace.length t.tid with
    | some errno =>
      rw [attached] at stepped
      obtain rfl := Option.some.inj stepped
      simp only [finish, visit, visitBody, World.interrupted, attached]
    | none =>
      rw [attached] at stepped
      obtain rfl := Option.some.inj stepped
      simp only [finish, visit, visitBody, World.interrupted, attached]
      rfl
  | wait t waitLoops =>
    cases waitLoops with
    | zero =>
      obtain rfl := Option.some.inj stepped
      rfl
    | succ waitLoops =>
      simp only [next] at stepped
      cases verdict : waitVerdict (w.wait4 s.trace.length t.tid) with
      | some rc =>
        rw [verdict] at stepped
        obtain rfl := Option.some.inj stepped
        simp only [finish, waitStop, World.interrupted, verdict]
        rfl
      | none =>
        rw [verdict] at stepped
        obtain rfl := Option.some.inj stepped
        simp only [finish, waitStop, World.interrupted, verdict]
        rfl
  | upt t => exact upt_finish time stepped
  | reg t addrs room fits => exact reg_finish time stepped
  | step t addrs room fits => exact step_finish time stepped
  | guards scheduled t =>
    cases scheduled with
    | nil =>
      obtain rfl := Option.some.inj stepped
      rfl
    | cons guard scheduled =>
      obtain rfl := Option.some.inj stepped
      rfl
  | check =>
    cases flag with
    | true =>
      obtain rfl := Option.some.inj stepped
      have set := honest_last honest
      simp only [finish, finishCheck, ← set]
    | false =>
      obtain rfl := Option.some.inj stepped
      have set := honest_last honest
      simp only [finish, finishCheck, ← set]
  | destroy =>
    obtain rfl := Option.some.inj stepped
    rfl
  | done => cases stepped

/-! ## Its end -/

/-- A step makes at most one call, reads the flag as it is, and leaves fewer steps to come. -/
structure Effect (flag : Bool) (m m' : Machine) : Prop where
  calls : ∃ calls, m'.child.trace = m.child.trace ++ calls ∧ calls.length ≤ 1 ∧
    ∀ set, Event.readFlag set ∈ calls → set = flag
  lower : m'.cost < m.cost

theorem Effect.silent (trace : m'.child.trace = m.child.trace) (lower : m'.cost < m.cost) :
    Effect flag m m' := ⟨⟨[], by simp [trace], by simp, by simp⟩, lower⟩

theorem Effect.call {e : Event} (trace : m'.child.trace = m.child.trace ++ [e])
    (read : ∀ set, e = .readFlag set → set = flag) (lower : m'.cost < m.cost) : Effect flag m m' :=
  ⟨⟨[e], trace, Nat.le_refl 1, fun set member => read set (List.mem_singleton.mp member).symm⟩,
    lower⟩

theorem next_effect (stepped : m.next w flag = some m') : Effect flag m m' := by
  obtain ⟨point, visited, tasks, s⟩ := m
  cases point with
  | create =>
    simp only [next] at stepped
    split at stepped
    · obtain rfl := Option.some.inj stepped
      exact .call rfl (by simp) (by simp [cost, Point.cost])
    · obtain rfl := Option.some.inj stepped
      exact .call rfl (by simp) (by simp [cost, Point.cost])
  | head =>
    cases tasks with
    | nil =>
      obtain rfl := Option.some.inj stepped
      exact .silent rfl (by simp [cost, Point.cost])
    | cons t tasks =>
      simp only [next] at stepped
      split at stepped
      · obtain rfl := Option.some.inj stepped
        exact .call rfl (by simp) (by simp [cost, Point.cost])
      · obtain rfl := Option.some.inj stepped
        exact .call rfl (by simp) (by simp [cost, Point.cost]; omega)
  | attach t =>
    simp only [next] at stepped
    split at stepped
    · obtain rfl := Option.some.inj stepped
      exact .call rfl (by simp) (by simp [cost, Point.cost])
    · obtain rfl := Option.some.inj stepped
      exact .call rfl (by simp) (by simp [cost, Point.cost])
  | wait t waitLoops =>
    cases waitLoops with
    | zero =>
      obtain rfl := Option.some.inj stepped
      exact .silent rfl (by simp [cost, Point.cost])
    | succ waitLoops =>
      simp only [next] at stepped
      split at stepped
      · obtain rfl := Option.some.inj stepped
        exact .call rfl (by simp) (by simp [cost, Point.cost]; omega)
      · obtain rfl := Option.some.inj stepped
        exact .call rfl (by simp) (by simp [cost, Point.cost])
  | upt t =>
    simp only [next] at stepped
    split at stepped
    · obtain rfl := Option.some.inj stepped
      exact .silent rfl (by simp [cost, Point.cost, entered])
    · split at stepped
      · obtain rfl := Option.some.inj stepped
        exact .call rfl (by simp) (by simp [cost, Point.cost])
      · obtain rfl := Option.some.inj stepped
        exact .call rfl (by simp) (by simp [cost, Point.cost, entered])
  | reg t addrs room fits =>
    cases room with
    | zero =>
      obtain rfl := Option.some.inj stepped
      exact .silent rfl (by simp [cost, Point.cost, entered])
    | succ room =>
      simp only [next] at stepped
      split at stepped
      · obtain rfl := Option.some.inj stepped
        exact .call rfl (by simp) (by simp [cost, Point.cost, entered])
      · split at stepped
        · obtain rfl := Option.some.inj stepped
          exact .call rfl (by simp) (by simp [cost, Point.cost, entered])
        · obtain rfl := Option.some.inj stepped
          exact .call rfl (by simp) (by simp [cost, Point.cost]; omega)
  | step t addrs room fits =>
    simp only [next] at stepped
    split at stepped
    · obtain rfl := Option.some.inj stepped
      exact .call rfl (by simp) (by simp [cost, Point.cost])
    · obtain rfl := Option.some.inj stepped
      exact .call rfl (by simp) (by simp [cost, Point.cost, entered])
  | guards scheduled t =>
    cases scheduled with
    | nil =>
      obtain rfl := Option.some.inj stepped
      exact .silent rfl (by simp [cost, Point.cost])
    | cons guard scheduled =>
      obtain rfl := Option.some.inj stepped
      cases guard with
      | clearRc => exact .silent rfl (by simp [cost, Point.cost])
      | countTask => exact .silent rfl (by simp [cost, Point.cost])
      | detach tid => exact .call rfl (by simp) (by simp [cost, Point.cost])
      | uptDestroy => exact .call rfl (by simp) (by simp [cost, Point.cost])
  | check =>
    simp only [next] at stepped
    obtain rfl := Option.some.inj stepped
    refine .call (e := .readFlag flag) ?_ (by simp) (by simp [cost, Point.cost])
    split <;> rfl
  | destroy =>
    obtain rfl := Option.some.inj stepped
    exact .call rfl (by simp) (by simp [cost, Point.cost])
  | done => cases stepped

theorem next_progress (w : World) (flag : Bool) (going : m.point ≠ .done) :
    ∃ m', m.next w flag = some m' := by
  obtain ⟨point, visited, tasks, s⟩ := m
  cases point with
  | done => exact absurd rfl going
  | head =>
    cases tasks with
    | nil => exact ⟨_, rfl⟩
    | cons t tasks => cases flag <;> exact ⟨_, rfl⟩
  | wait t waitLoops =>
    cases waitLoops with
    | zero => exact ⟨_, rfl⟩
    | succ waitLoops =>
      simp only [next]
      split <;> exact ⟨_, rfl⟩
  | reg t addrs room fits =>
    cases room with
    | zero => exact ⟨_, rfl⟩
    | succ room =>
      simp only [next]
      split
      · exact ⟨_, rfl⟩
      · split <;> exact ⟨_, rfl⟩
  | guards scheduled t => cases scheduled <;> exact ⟨_, rfl⟩
  | upt t =>
    simp only [next]
    split
    · exact ⟨_, rfl⟩
    · split <;> exact ⟨_, rfl⟩
  | create =>
    simp only [next]
    split <;> exact ⟨_, rfl⟩
  | attach t =>
    simp only [next]
    split <;> exact ⟨_, rfl⟩
  | step t addrs room fits =>
    simp only [next]
    split <;> exact ⟨_, rfl⟩
  | check => exact ⟨_, rfl⟩
  | destroy => exact ⟨_, rfl⟩

/-- A step in a world whose interrupt is not brought by anything else. -/
def alone (w : World) (m : Machine) (_ : Unit) : Option Machine :=
  m.next w (w.interrupt m.child.trace.length)

theorem alone_ends (w : World) (m : Machine) :
    ∃ m', Reaches (alone w) m m' ∧ m'.point = .done := by
  apply reaches_final
  · intro m _ m' stepped
    exact (next_effect stepped).lower
  · intro m going
    obtain ⟨m', stepped⟩ := next_progress w (w.interrupt m.child.trace.length) going
    exact ⟨(), m', stepped⟩

/-- What m leads to when nothing but the world sets the flag. -/
structure Ahead (w : World) (m x : Machine) : Prop where
  same : finish w x = finish w m
  honest : w.Honest x.child.trace
  started : m.child.trace <+: x.child.trace

theorem Ahead.alone {x x' : Machine} (ahead : Ahead w m x) {u : Unit}
    (stepped : alone w x u = some x') : Ahead w m x' := by
  obtain ⟨⟨calls, grown, single, read⟩, _⟩ := next_effect stepped
  have honest : w.Honest x'.child.trace := by
    rw [grown]
    exact ahead.honest.append single read
  refine ⟨(next_finish w.interruptAt stepped honest).trans ahead.same, honest, ?_⟩
  rw [grown]
  exact ahead.started.trans (List.prefix_append _ _)

/-- Honest so far, and what is to come goes on from there. -/
theorem finish_grows (w : World) (m : Machine) (honest : w.Honest m.child.trace) :
    m.child.trace <+: (finish w m).1.trace := by
  obtain ⟨last, reaches, done⟩ := alone_ends w m
  obtain ⟨same, _, started⟩ : Ahead w m last :=
    reaches.invariant (fun _ _ _ ahead stepped => ahead.alone stepped)
      ⟨rfl, honest, List.prefix_refl _⟩
  have ended : finish w last = (last.child, last.visited ++ last.tasks) := by
    rw [finish, done]
  rw [← same, ended]
  exact started

end Next

end Machine

/-- A capture that ends with 0 never read the flag set. -/
theorem capture_clear (w : World) (tasks : List Task)
    (clear : exitStatus (capture w tasks).1.rc = 0) :
    Event.readFlag true ∉ (capture w tasks).1.trace := by
  revert clear
  unfold capture
  cases w.createSpace with
  | false =>
    intro clear
    cases clear
  | true =>
    obtain ⟨visited, rest, trace, split, rounds, rc, ending⟩ :=
      captureLoop_rounds w tasks (Child.log {} (.createSpace true)) rfl
    generalize captureLoop w tasks (Child.log {} (.createSpace true)) = r at rc ending
    simp only [if_true]
    cases set : w.interrupt r.1.trace.length with
    | true =>
      intro clear
      cases clear
    | false =>
      intro _
      rcases ending with ⟨_, shape⟩ | ⟨seen, shape⟩
      · simp [Child.log, shape, rounds.flag_not_mem]
      · have later : w.interrupt r.1.trace.length = true :=
          w.interrupt_mono seen (by rw [shape]; simp)
        rw [set] at later
        cases later

end Obstack
