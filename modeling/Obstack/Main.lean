import Obstack.Options
import Obstack.Settle

/-! main from its command line to the report. What the options, the listing of the threads, the
visits of the child and the rendering of the parent contribute comes together here, and the two
processes that take step after step are compared with it. -/
namespace Obstack
open CText Transitions

/-- What becomes of the child: it returns from main, a signal kills it, or wait fails, as it does
where fork has failed. -/
inductive Fate where
  | returns
  | killed (sig : Nat)
  | unwaited (errno : Int)
  deriving DecidableEq, Repr

/-- What wait tells the parent. -/
def Fate.told (status : Nat) : Fate → ChildEnd
  | .returns => .exited status
  | .killed sig => .signaled sig
  | .unwaited errno => .waitFailed errno

/-- What main meets: the environment variable of getopt_long, the task directory of each process,
the buffer on its stack, the outcomes of the child's calls and its fate, and what the report is made
from. -/
structure Outside where
  posixlyCorrect : Bool
  taskDir : Nat → Option TaskDir
  buf : Str
  world : World
  fate : Fate
  env : StackEnv

/-- How main ends: in get_options, with ENTRY_NOT_EXIST, or behind wait, with what stack_it prints
or with its end if it is called; unfinished is a listing that takes more calls than are allowed. -/
inductive Ending where
  | options (exit : OptionExit)
  | entryNotExist
  | unfinished
  | waited (report : Option (Except Death Str))

/-- /proc has no entry for a negative number. -/
def Outside.taskDirOf (x : Outside) (pid : Int) : Option TaskDir :=
  if 0 ≤ pid then x.taskDir pid.toNat else none

def main (x : Outside) (fuel : Nat) (args : List Str) : Ending :=
  match getOptions x.posixlyCorrect args with
  | .error exit => .options exit
  | .ok o =>
    match iterTask (x.taskDirOf o.pid) o.pid o.threadOnly fuel x.buf with
    | none => .unfinished
    | some threads =>
      if threads = [] then .entryNotExist
      else
        let r := capture x.world (threads.map taskCb)
        .waited (parent x.env o.conf o.pid.toNat r.2 (x.fate.told (exitStatus r.1.rc)))

/-! ## The child's part -/

theorem mem_capture_trace {w : World} {tasks : List Task} (space : w.createSpace = true) {e : Event}
    (member : e ∈ (captureLoop w tasks (Child.log {} (.createSpace true))).1.trace) :
    e ∈ (capture w tasks).1.trace := by
  unfold capture
  generalize captureLoop w tasks (Child.log {} (.createSpace true)) = r at member ⊢
  cases set : w.interrupt r.1.trace.length <;> simp [space, set, Child.log, member]

/-- What is printed for a thread that is visited at a time. -/
def sample (w : World) (visit : (Int × Str) × Nat) : Bt :=
  let addrs := (outcome w visit.1.1 visit.2).addrs w
  { tid := visit.1.1, tname := visit.1.2.take 32, addrs, bt := renderBt addrs }

section Samples

variable {w : World} (errnos : w.ReportsErrno)
include errnos

theorem visit_sample (thread : Int × Str) (s : Child) :
    (visit w (taskCb thread) s).2.toBt = sample w (thread, s.trace.length) := by
  obtain ⟨tid, tname⟩ := visit_thread w (taskCb thread) s
  have addrs := visit_addrs errnos (taskCb thread) rfl s
  simp only [Task.toBt, tid, tname, addrs]
  rfl

/-- Where the flag is never seen set, the threads are visited one after the other. -/
theorem captureLoop_samples (threads : List (Int × Str)) (s : Child)
    (unseen : .readFlag true ∉ (captureLoop w (threads.map taskCb) s).1.trace) :
    ∃ times, times.length = threads.length ∧ times.Pairwise (· < ·) ∧
      (∀ time ∈ times, s.trace.length < time) ∧
      (captureLoop w (threads.map taskCb) s).2.map Task.toBt =
        (threads.zip times).map (sample w) := by
  induction threads generalizing s with
  | nil => exact ⟨[], rfl, List.Pairwise.nil, by simp, rfl⟩
  | cons thread threads ih =>
    simp only [List.map_cons, captureLoop] at unseen ⊢
    cases set : w.interrupt s.trace.length with
    | true => simp [set, Child.log] at unseen
    | false =>
      simp only [set, Bool.false_eq_true, if_false] at unseen ⊢
      have now : (s.log (.readFlag false)).trace.length = s.trace.length + 1 := by simp [Child.log]
      obtain ⟨session, _, after⟩ := visit_session w (taskCb thread) (s.log (.readFlag false))
      obtain ⟨times, length, order, later, sampled⟩ := ih _ unseen
      have behind : ∀ time ∈ times, s.trace.length + 1 < time := by
        intro time member
        have bound := later time member
        rw [after, List.length_append, now] at bound
        omega
      refine ⟨(s.trace.length + 1) :: times, by simp [length],
        List.pairwise_cons.mpr ⟨behind, order⟩, ?_, ?_⟩
      · rw [List.forall_mem_cons]
        refine ⟨Nat.lt_succ_self _, fun time member => ?_⟩
        have bound := behind time member
        omega
      · rw [List.map_cons, sampled, visit_sample errnos, now]
        rfl

/-- A capture that ends with 0 has made all its visits. -/
theorem capture_visits (threads : List (Int × Str)) (space : w.createSpace = true)
    (unseen : .readFlag true ∉ (capture w (threads.map taskCb)).1.trace) :
    ∃ times, times.length = threads.length ∧ times.Pairwise (· < ·) ∧
      (capture w (threads.map taskCb)).2.map Task.toBt = (threads.zip times).map (sample w) := by
  have unseenLoop := fun seen => unseen (mem_capture_trace space seen)
  obtain ⟨times, length, order, _, sampled⟩ := captureLoop_samples errnos threads _ unseenLoop
  refine ⟨times, length, order, ?_⟩
  rw [← sampled, capture, if_pos space]

end Samples

/-- 0 is what the child returns when it has an address space and never sees the flag set. -/
theorem capture_status (w : World) (tasks : List Task) :
    exitStatus (capture w tasks).1.rc = 0 ↔
      w.createSpace = true ∧ .readFlag true ∉ (capture w tasks).1.trace := by
  constructor
  · intro clear
    refine ⟨?_, capture_clear w tasks clear⟩
    cases space : w.createSpace with
    | false =>
      rw [capture, space] at clear
      cases clear
    | true => rfl
  · rintro ⟨space, unseen⟩
    obtain ⟨_, _, _, _, _, rc, _⟩ :=
      captureLoop_rounds w tasks (Child.log {} (.createSpace true)) rfl
    unfold capture at unseen ⊢
    generalize captureLoop w tasks (Child.log {} (.createSpace true)) = r at rc unseen ⊢
    cases set : w.interrupt r.1.trace.length with
    | true => simp [space, set, Child.log] at unseen
    | false => simp [space, set, Child.log, rc, exitStatus]

/-- The tasks that add_bt is called for, in their order. -/
theorem captured_bts (tasks : List Task) :
    (captured tasks).map Task.toBt = (tasks.map Task.toBt).filter (fun bt => bt.addrs ≠ []) := by
  rw [List.filter_map]
  refine congrArg (List.map Task.toBt) (List.filter_congr fun t _ => ?_)
  cases held : t.addrs <;> simp [Task.isValid, Task.toBt, held]

/-! ## From the command line to the report -/

/-- stack_it is called for one visit to each listed thread, in the order of the listing; threads
without a frame are left out. Nothing is printed where nothing is listed, and nothing where the
child does not return, gets no address space or sees the flag set. -/
structure ReportsThreads (x : Outside) (o : Options) (threads : List (Int × Str))
    (ending : Ending) : Prop where
  nobody : threads = [] → ending = .entryNotExist
  silent : threads ≠ [] →
    ¬ (x.fate = .returns ∧ x.world.createSpace = true ∧
      .readFlag true ∉ (capture x.world (threads.map taskCb)).1.trace) →
    ending = .waited none
  visited : threads ≠ [] → x.fate = .returns → x.world.createSpace = true →
    .readFlag true ∉ (capture x.world (threads.map taskCb)).1.trace →
    ∃ times, times.length = threads.length ∧ times.Pairwise (· < ·) ∧
      ending = .waited (some (stackIt x.env o.conf
        { pid := o.pid.toNat,
          bts := ((threads.zip times).map (sample x.world)).filter (fun bt => bt.addrs ≠ []) }))

theorem main_waited (x : Outside) {args : List Str} {o : Options}
    (accepted : getOptions x.posixlyCorrect args = .ok o) {fuel : Nat} {threads : List (Int × Str)}
    (listed : iterTask (x.taskDirOf o.pid) o.pid o.threadOnly fuel x.buf = some threads)
    (somebody : threads ≠ []) :
    let r := capture x.world (threads.map taskCb)
    main x fuel args =
      .waited (parent x.env o.conf o.pid.toNat r.2 (x.fate.told (exitStatus r.1.rc))) := by
  simp only [main, accepted, listed, if_neg somebody]

/-- Only exit status 0 makes the parent call stack_it. -/
theorem parent_silent {env : StackEnv} {conf : Config} {pid : Nat} {tasks : List Task}
    {e : ChildEnd} (other : e ≠ .exited 0) : parent env conf pid tasks e = none := by
  cases e with
  | exited status =>
    rw [parent, if_neg]
    rintro rfl
    exact other rfl
  | waitFailed errno => rfl
  | signaled sig => rfl
  | unhandled => rfl

theorem main_reports (x : Outside) (errnos : x.world.ReportsErrno) {args : List Str} {o : Options}
    (accepted : getOptions x.posixlyCorrect args = .ok o) {batches : List Batch}
    {comm : Int → Option Str} {tname : Int → Str}
    (listing : x.taskDirOf o.pid = some (listedDir batches comm tname)) (k : Nat) :
    ReportsThreads x o (listedThreads comm tname o.pid o.threadOnly batches)
      (main x (batches.length + 1 + k) args) := by
  have listed := iterTask_threads comm tname o.pid o.threadOnly batches k x.buf
  rw [← listing] at listed
  generalize listedThreads comm tname o.pid o.threadOnly batches = threads at listed
  have run := main_waited x accepted listed
  constructor
  case nobody =>
    intro nothing
    simp only [main, accepted, listed, nothing, if_true]
  case silent =>
    intro somebody failed
    rw [run somebody, parent_silent]
    intro told
    cases fate : x.fate with
    | returns =>
      rw [fate] at told
      have clear := (capture_status _ _).mp (ChildEnd.exited.inj told)
      exact failed ⟨fate, clear⟩
    | killed sig => simp [fate, Fate.told] at told
    | unwaited errno => simp [fate, Fate.told] at told
  case visited =>
    intro somebody returns space unseen
    have clear := (capture_status x.world (threads.map taskCb)).mpr ⟨space, unseen⟩
    obtain ⟨times, length, order, sampled⟩ := capture_visits errnos threads space unseen
    refine ⟨times, length, order, ?_⟩
    rw [run somebody, returns, Fate.told, parent, if_pos clear, addTasks_eq, captured_bts, sampled]
    rfl

def mainThread : Entry where
  head := List.replicate 16 nul
  type := Char.ofNat 4
  name := ['7']
  pad := List.replicate 3 nul
  headLength := rfl
  written := by
    refine Or.inr (Or.inr ⟨by decide, ?_, by decide⟩)
    intro c member
    obtain rfl := List.mem_singleton.mp member
    decide

def mainComm (_ : Int) : Option Str := some ['t', '\n']

/-- A process of one thread whose stack has no end. -/
def loopingProcess : Outside where
  posixlyCorrect := false
  taskDir pid :=
    if pid = 7 then some (listedDir [⟨[mainThread], by decide, by decide⟩] mainComm (fun _ => []))
    else none
  buf := []
  world := endlessWorld
  fate := .returns
  env := quietStackEnv none

theorem main_reports_looping :
    ReportsThreads loopingProcess { pid := 7, threadOnly := true } [(7, ['t'])]
      (main loopingProcess 2 [['-', 't'], ['7']]) := by
  have accepted : getOptions false [['-', 't'], ['7']] = .ok { pid := 7, threadOnly := true } := rfl
  have listing : loopingProcess.taskDirOf 7 =
      some (listedDir [⟨[mainThread], by decide, by decide⟩] mainComm (fun _ => [])) := rfl
  have threads : listedThreads mainComm (fun _ => []) 7 true
      [⟨[mainThread], by decide, by decide⟩] = [(7, ['t'])] := by decide
  rw [← threads]
  exact main_reports loopingProcess (fun _ _ _ failed => nomatch failed) accepted listing 0

/-! ## The two processes -/

/-- Nothing is pending and nothing has been delivered. -/
structure ChildProcess.Silent (c : ChildProcess) : Prop where
  pending : ∀ sig, c.signals.pending sig = false
  unset : c.interrupt = none
  alive : ∀ sig, c.ended ≠ some (.signaled sig)

structure System.Silent (s : System) : Prop where
  pending : ∀ sig, s.parent.signals.pending sig = false
  alive : ∀ sig, s.parent.ended ≠ some (.killed sig)
  child : ∀ c, s.child = some c → c.Silent

section Silent

variable {x : Setting} {s s' : System}

theorem ChildProcess.Silent.next {w : World} {tasks : List Task} {c : ChildProcess}
    (silent : c.Silent) : (c.next w tasks).Silent := by
  obtain ⟨signals, point, interrupt, ended⟩ := c
  obtain ⟨pending, unset, alive⟩ := silent
  cases point with
  | unblock => exact ⟨pending, unset, alive⟩
  | install sigs => cases sigs <;> exact ⟨pending, unset, alive⟩
  | main m =>
    simp only [ChildProcess.next]
    cases m.next w interrupt.isSome with
    | some m' => exact ⟨pending, unset, alive⟩
    | none => exact ⟨pending, unset, by simp⟩

theorem System.Silent.parent_next (silent : s.Silent) (going : s.parent.ended = none)
    {forked : Bool} (stepped : s.parentNext x forked = some s') : s'.Silent := by
  obtain ⟨⟨signals, point, written, ended⟩, child⟩ := s
  obtain rfl : ended = none := going
  obtain ⟨pending, alive, children⟩ := silent
  cases point with
  | block =>
    obtain rfl := Option.some.inj stepped
    exact ⟨pending, alive, children⟩
  | fork =>
    obtain rfl := Option.some.inj stepped
    refine ⟨pending, alive, fun c here => ?_⟩
    cases forked with
    | false => cases here
    | true =>
      obtain rfl := Option.some.inj here
      exact ⟨fun _ => rfl, rfl, by simp⟩
  | wait =>
    cases child with
    | none =>
      obtain rfl := Option.some.inj stepped
      exact ⟨pending, alive, children⟩
    | some c =>
      obtain ⟨e, _, rfl⟩ := Option.map_eq_some_iff.mp stepped
      exact ⟨pending, alive, children⟩
  | unblock result =>
    obtain rfl := Option.some.inj stepped
    exact ⟨pending, alive, children⟩
  | report result =>
    simp only [System.parentNext] at stepped
    split at stepped
    · obtain rfl := Option.some.inj stepped
      exact ⟨pending, by simp, children⟩
    · obtain rfl := Option.some.inj stepped
      exact ⟨pending, by simp, children⟩
    · obtain rfl := Option.some.inj stepped
      exact ⟨pending, alive, children⟩
  | print rest result =>
    cases rest with
    | nil =>
      obtain rfl := Option.some.inj stepped
      exact ⟨pending, by simp, children⟩
    | cons c rest => cases stepped

theorem System.Silent.parent_writes (silent : s.Silent) {n : Nat}
    (stepped : s.parentWrites n = some s') : s'.Silent := by
  simp only [System.parentWrites] at stepped
  split at stepped
  · obtain ⟨_, written⟩ := Option.ite_none_right_eq_some.mp stepped
    obtain rfl := Option.some.inj written
    exact ⟨silent.pending, silent.alive, silent.child⟩
  · cases stepped

theorem ChildProcess.Silent.undeliverable {c : ChildProcess} (silent : c.Silent) (sig : Interrupt) :
    c.signals.deliverable sig = false := by
  rw [SigState.deliverable, silent.pending sig, Bool.false_and]

theorem System.Silent.child_moves (silent : s.Silent) {c : ChildProcess} (quiet : c.Silent) :
    System.Silent { s with child := some c } where
  pending := silent.pending
  alive := silent.alive
  child := by
    intro c' same
    obtain rfl := Option.some.inj same
    exact quiet

/-- Where none is sent, none is delivered. -/
theorem System.Silent.settle {act : Action} (silent : s.Silent)
    (settled : s.settle x act = some s') : s'.Silent := by
  cases System.step_move (settle_step settled) with
  | sendParent sig going => cases settled
  | sendChild sig here going => cases settled
  | deliverParent sig going deliverable =>
    simp [SigState.deliverable, silent.pending sig] at deliverable
  | deliverChild sig here going deliverable =>
    rw [(silent.child _ here).undeliverable sig] at deliverable
    cases deliverable
  | parent going next => exact silent.parent_next going next
  | write going written => exact silent.parent_writes written
  | child here going free => exact silent.child_moves (silent.child _ here).next

end Silent

/-- What has come of stack_it where no signal kills the parent. -/
def ParentProcess.outcome (p : ParentProcess) : Option (Option (Except Death Str)) :=
  match p.ended with
  | some (.returned (some (.exited 0))) => some (some (.ok p.written))
  | some (.returned _) => some none
  | some (.died death) => some (some (.error death))
  | _ => none

namespace System

/-- When the child's handler first ran. -/
def interrupt (s : System) : Option Nat := s.child.bind ChildProcess.interrupt

def fate (s : System) : Fate :=
  match s.child with
  | none => .unwaited 10
  | some c =>
    match c.ended with
    | some (.signaled sig) => .killed sig
    | _ => .returns

end System

section Outcome

variable {x : Setting} {s : System}

end Outcome

end Obstack
