import Obstack.Capture

/-! One round of the capture loop against the signals of its target thread. The kernel may
send, dequeue and deliver signals between any two calls of the tracer and in any order; the
tracer accepts a stop by the verdict of its wait loop, which does not look at the signal. -/
namespace Obstack

/-- A pending signal; own marks the SIGSTOP queued by the tracer's PTRACE_ATTACH. -/
structure Sig where
  num : Nat
  own : Bool
  deriving DecidableEq, Repr

def attachStop : Sig := { num := 19, own := true }

inductive Phase where
  | before
  | waiting (waitLoops : Nat)
  | accepted
  | failed
  | detached
  deriving DecidableEq, Repr

def Phase.traced : Phase → Bool
  | .before => false
  | .detached => false
  | _ => true

def Phase.afterWait (r : WaitResult) : Phase → Phase
  | .waiting (waitLoops + 1) =>
    match waitVerdict r with
    | some rc => if rc = 0 then .accepted else .failed
    | none => .waiting waitLoops
  | phase => phase

/-- The turns are those of the child: its wait loop ends with rc 0 exactly when the turns on
the results it saw end accepted. -/
theorem waitStop_phase (w : World) (tid : Int) (waitLoops : Nat) (s : Child) (unset : s.rc = -1) :
    ∃ results : List WaitResult,
      (waitStop w tid waitLoops s).trace = s.trace ++ results.map (fun _ => .wait) ∧
      ((waitStop w tid waitLoops s).rc = 0 ↔
        results.foldl (fun phase r => Phase.afterWait r phase) (Phase.waiting waitLoops) =
          Phase.accepted) := by
  induction waitLoops generalizing s with
  | zero => exact ⟨[], by simp [waitStop], by simp [waitStop, unset]⟩
  | succ waitLoops ih =>
    rw [waitStop]
    cases verdict : waitVerdict (w.wait4 s.trace.length tid) with
    | some rc =>
      refine ⟨[w.wait4 s.trace.length tid], rfl, ?_⟩
      simp only [List.foldl_cons, List.foldl_nil, Phase.afterWait, verdict]
      by_cases zero : rc = 0 <;> simp [zero]
    | none =>
      obtain ⟨results, trace, same⟩ := ih (s.log .wait) unset
      refine ⟨w.wait4 s.trace.length tid :: results, ?_, ?_⟩
      · simpa [Child.log] using trace
      · simpa [Phase.afterWait, verdict] using same

structure Sys where
  phase : Phase := .before
  pending : List Sig
  stop : Option Sig := none
  delivered : List Sig := []
  discarded : List Sig := []
  deriving DecidableEq, Repr

inductive Act where
  | send (num : Nat)
  | attach
  | dequeue (sig : Sig)
  | deliver (sig : Sig)
  | wait (r : WaitResult)
  | detach
  deriving DecidableEq, Repr

namespace Sys

/-- What wait4 can report: a stop only with the signal of the current stop. -/
def reports (s : Sys) : WaitResult → Bool
  | .stopped num => s.stop.any (fun sig => sig.num = num)
  | .failed errno => errno ≠ 0
  | .other => true

/-- none where the action is not possible. A detach with data 0 drops the signal of the stop. -/
def step (s : Sys) : Act → Option Sys
  | .send num => some { s with pending := s.pending ++ [{ num, own := false }] }
  | .attach =>
    if s.phase = .before then
      some { s with phase := .waiting 10, pending := s.pending ++ [attachStop] }
    else none
  | .dequeue sig =>
    if s.phase.traced = true ∧ s.stop = none ∧ sig ∈ s.pending then
      some { s with pending := s.pending.erase sig, stop := some sig }
    else none
  | .deliver sig =>
    if s.phase.traced = false ∧ sig ∈ s.pending then
      some { s with pending := s.pending.erase sig, delivered := s.delivered ++ [sig] }
    else none
  | .wait r =>
    if s.reports r = true ∧ s.phase.traced = true then
      some { s with phase := s.phase.afterWait r }
    else none
  | .detach =>
    match s.phase, s.stop with
    | .accepted, some sig =>
      some { s with phase := .detached, stop := none, discarded := s.discarded ++ [sig] }
    | _, _ => none

def run (s : Sys) (acts : List Act) : Option Sys := acts.foldlM step s

/-- The thread before the round, with the signals others queued. -/
def start (pending : List Nat) : Sys := { pending := pending.map (fun num => { num, own := false }) }

/-- The round dropped no foreign signal and left no SIGSTOP of its own behind. -/
def Undisturbed (s : Sys) : Prop :=
  (∀ sig ∈ s.discarded, sig.own = true) ∧ ∀ sig ∈ s.pending ++ s.delivered, sig.own = false

instance (s : Sys) : Decidable s.Undisturbed := inferInstanceAs (Decidable (_ ∧ _))

end Sys

def dequeued (acts : List Act) : List Sig :=
  acts.filterMap fun
    | .dequeue sig => some sig
    | _ => none

def ownCount (sigs : List Sig) : Nat := sigs.countP Sig.own

/-- The one SIGSTOP of the tracer is in one place from the attach on, and a signal the thread
stopped for is either that of the current stop or discarded. -/
structure RoundInv (acts : List Act) (s : Sys) : Prop where
  stops : dequeued acts = s.discarded ++ s.stop.toList
  own : ownCount s.pending + ownCount s.stop.toList + ownCount s.delivered + ownCount s.discarded =
    if s.phase = .before then 0 else 1
  untraced : s.phase.traced = false → s.stop = none
  single : s.discarded.length = if s.phase = .detached then 1 else 0

theorem ownCount_append (xs ys : List Sig) : ownCount (xs ++ ys) = ownCount xs + ownCount ys :=
  List.countP_append

theorem ownCount_erase {sig : Sig} {sigs : List Sig} (member : sig ∈ sigs) :
    ownCount (sigs.erase sig) + ownCount [sig] = ownCount sigs := by
  have split := (List.perm_cons_erase member).countP_eq Sig.own
  rw [List.countP_cons] at split
  simp only [ownCount, List.countP_singleton]
  exact split.symm

theorem dequeued_append (acts : List Act) (act : Act) :
    dequeued (acts ++ [act]) = dequeued acts ++ dequeued [act] := List.filterMap_append

/-- Only a dequeue adds to the signals dequeued. -/
theorem dequeued_other {act : Act} (other : dequeued [act] = []) (acts : List Act) :
    dequeued (acts ++ [act]) = dequeued acts := by
  rw [dequeued_append, other, List.append_nil]

theorem start_inv (pending : List Nat) : RoundInv [] (Sys.start pending) := by
  refine ⟨rfl, ?_, fun _ => rfl, rfl⟩
  simp [Sys.start, ownCount]

theorem afterWait_keeps (r : WaitResult) {phase : Phase} (traced : phase.traced = true) :
    (phase.afterWait r).traced = true ∧ phase.afterWait r ≠ .before ∧
      phase ≠ .before ∧ phase.afterWait r ≠ .detached ∧ phase ≠ .detached := by
  unfold Phase.afterWait
  split
  · cases waitVerdict r with
    | none => simp [Phase.traced]
    | some rc => dsimp only; split <;> simp [Phase.traced]
  · cases phase <;> simp_all [Phase.traced]

theorem step_inv {acts : List Act} {s s' : Sys} {act : Act} (inv : RoundInv acts s)
    (stepped : s.step act = some s') : RoundInv (acts ++ [act]) s' := by
  obtain ⟨stops, own, untraced, single⟩ := inv
  cases act with
  | send num =>
    obtain rfl := Option.some.inj stepped
    refine ⟨?_, ?_, untraced, single⟩
    · exact (dequeued_other rfl acts).trans stops
    · simpa [ownCount_append, ownCount] using own
  | attach =>
    simp only [Sys.step, Option.ite_none_right_eq_some, Option.some.injEq] at stepped
    obtain ⟨before, rfl⟩ := stepped
    rw [before] at own single
    refine ⟨?_, ?_, by simp [Phase.traced], by simpa using single⟩
    · exact (dequeued_other rfl acts).trans stops
    · simp only [if_true, ownCount_append] at own ⊢
      simp only [ownCount, attachStop, List.countP_singleton] at own ⊢
      simp
      omega
  | dequeue sig =>
    simp only [Sys.step, Option.ite_none_right_eq_some, Option.some.injEq] at stepped
    obtain ⟨⟨traced, running, member⟩, rfl⟩ := stepped
    rw [running] at stops own
    refine ⟨?_, ?_, by simp [traced], single⟩
    · rw [dequeued_append, stops]
      simp [dequeued]
    · have moved := ownCount_erase member
      have nothing : ownCount [] = 0 := rfl
      simp only [Option.toList_none, Option.toList_some] at own ⊢
      rw [← own, ← moved, nothing]
      omega
  | deliver sig =>
    simp only [Sys.step, Option.ite_none_right_eq_some, Option.some.injEq] at stepped
    obtain ⟨⟨free, member⟩, rfl⟩ := stepped
    refine ⟨?_, ?_, untraced, single⟩
    · exact (dequeued_other rfl acts).trans stops
    · have moved := ownCount_erase member
      simp only [ownCount_append]
      rw [← own, ← moved]
      omega
  | wait r =>
    simp only [Sys.step, Option.ite_none_right_eq_some, Option.some.injEq] at stepped
    obtain ⟨⟨_, traced⟩, rfl⟩ := stepped
    obtain ⟨still, notBefore', notBefore, notDetached', notDetached⟩ := afterWait_keeps r traced
    refine ⟨?_, ?_, by simp [still], ?_⟩
    · exact (dequeued_other rfl acts).trans stops
    · rw [if_neg notBefore] at own
      simpa [notBefore'] using own
    · rw [if_neg notDetached] at single
      simpa [notDetached'] using single
  | detach =>
    simp only [Sys.step] at stepped
    split at stepped
    · rename_i sig accepted stop
      obtain rfl := Option.some.inj stepped
      rw [accepted] at own single
      rw [stop] at stops own
      refine ⟨?_, ?_, fun _ => rfl, ?_⟩
      · rw [dequeued_other rfl acts, stops]
        simp
      · simp only [ownCount_append, Option.toList_some] at own ⊢
        simp only [ownCount, Option.toList_none, List.countP_nil] at own ⊢
        simp at own ⊢
        omega
      · simpa using single
    · contradiction

theorem run_inv {acts done : List Act} {s s' : Sys} (inv : RoundInv done s)
    (ran : s.run acts = some s') : RoundInv (done ++ acts) s' := by
  induction acts generalizing done s with
  | nil =>
    obtain rfl := Option.some.inj ran
    simpa using inv
  | cons act acts ih =>
    rw [Sys.run, List.foldlM_cons] at ran
    obtain ⟨mid, stepped, rest⟩ := Option.bind_eq_some_iff.mp ran
    have later := ih (step_inv inv stepped) rest
    rwa [List.append_assoc] at later

/-- A round ends undisturbed exactly when every signal the thread stopped for in it was the
SIGSTOP of its attach, whatever else was pending or sent. -/
theorem round_undisturbed_iff (pending : List Nat) (acts : List Act) (s : Sys)
    (ran : (Sys.start pending).run acts = some s) (ended : s.phase = .detached) :
    s.Undisturbed ↔ ∀ sig, Act.dequeue sig ∈ acts → sig.own = true := by
  obtain ⟨stops, own, untraced, single⟩ := run_inv (start_inv pending) ran
  have free : s.stop = none := untraced (by rw [ended]; rfl)
  rw [ended] at own single
  rw [List.nil_append, free, Option.toList_none, List.append_nil] at stops
  have seen (sig : Sig) : Act.dequeue sig ∈ acts ↔ sig ∈ s.discarded := by
    rw [← stops, dequeued, List.mem_filterMap]
    constructor
    · intro member
      exact ⟨_, member, rfl⟩
    · rintro ⟨act, member, same⟩
      cases act <;> simp_all
  simp only [seen]
  constructor
  · rintro ⟨kept, _⟩
    exact kept
  · intro kept
    refine ⟨kept, ?_⟩
    have dropped : ownCount s.discarded = s.discarded.length := List.countP_eq_length.mpr kept
    have none_ : ownCount (s.pending ++ s.delivered) = 0 := by
      simp only [if_true, reduceCtorEq, if_false] at own single
      rw [ownCount_append]
      omega
    intro sig member
    simpa using List.countP_eq_zero.mp none_ sig member

/-- SIGUSR1 is pending when the tracer attaches and is dequeued first: it is lost, and the
thread is stopped by the SIGSTOP that comes after the detach. -/
theorem foreign_signal_lost :
    ∃ s, (Sys.start [10]).run [.attach, .dequeue ⟨10, false⟩, .wait (.stopped 10), .detach,
        .deliver attachStop] = some s ∧ s.phase = .detached ∧ ¬ s.Undisturbed :=
  ⟨_, rfl, rfl, by decide⟩

theorem attach_stop_first :
    Sys.Undisturbed { phase := .detached, pending := [], delivered := [⟨10, false⟩],
                      discarded := [attachStop] } :=
  (round_undisturbed_iff [10] [.attach, .dequeue attachStop, .wait (.stopped 19), .detach,
    .deliver ⟨10, false⟩] _ rfl rfl).mpr (by simp [attachStop])

end Obstack
