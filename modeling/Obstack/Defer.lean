import Mathlib.Data.List.Basic

/-! common::ScopedLambda: all the objects that are derived from one action by moving. The
defaulted move constructor copies active_, so that the action is owed once more by each move
from an object that is active. -/
namespace Obstack

/-- fn_ is left out: objects made from one another hold the same action. -/
structure ScopedLambda where
  active : Bool := true
  deriving DecidableEq, Repr

namespace ScopedLambda

def deactivate (_ : ScopedLambda) : ScopedLambda := { active := false }

/-- The defaulted move constructor: member by member, the source stays as it is. -/
def move (o : ScopedLambda) : ScopedLambda := { active := o.active }

/-- How often fn_ is called by if (active_) fn_(). -/
def fn (o : ScopedLambda) : Nat := if o.active then 1 else 0

end ScopedLambda

/-- The objects in order of construction, none once destroyed, and the executions so far. -/
structure Derived where
  objects : List (Option ScopedLambda)
  executions : Nat
  deriving DecidableEq, Repr

inductive LambdaOp where
  | move (i : Nat)
  | deactivate (i : Nat)
  | runAndExpire (i : Nat)
  | destroy (i : Nat)
  deriving DecidableEq, Repr

namespace Derived

def live (s : Derived) (i : Nat) : Option ScopedLambda := s.objects[i]?.join

/-- none where the object does not exist any more, or not yet. -/
def step (s : Derived) : LambdaOp → Option Derived
  | .move i => (s.live i).map fun o => { s with objects := s.objects ++ [some o.move] }
  | .deactivate i => (s.live i).map fun o =>
      { s with objects := s.objects.set i (some o.deactivate) }
  | .runAndExpire i => (s.live i).map fun o =>
      { objects := s.objects.set i (some o.deactivate), executions := s.executions + o.fn }
  | .destroy i => (s.live i).map fun o =>
      { objects := s.objects.set i none, executions := s.executions + o.fn }

def run (s : Derived) : List LambdaOp → Option Derived
  | [] => some s
  | op :: ops => (s.step op).bind (fun s => s.run ops)

end Derived

/-- The object that the return statement of MakeScopedLambda constructs. -/
def scopedLambda : Derived := { objects := [some {}], executions := 0 }

/-- From there to the variable of the caller: two moves, each from a temporary that is then
destroyed, unless the copies are elided. -/
def makeScopedLambda (elided : Bool) : List LambdaOp :=
  if elided then [] else [.move 0, .destroy 0, .move 1, .destroy 1]

/-- At most one execution, and exactly one when nothing was deactivated and nothing is left. -/
structure RunsOnce (ops : List LambdaOp) (s : Derived) : Prop where
  atMost : s.executions ≤ 1
  exactly : (∀ op ∈ ops, ∀ i, op ≠ .deactivate i) → (∀ o ∈ s.objects, o = none) →
    s.executions = 1

/-- The step does not move from an object that is active. -/
def Derived.FromInactive (s : Derived) : LambdaOp → Prop
  | .move i => ∀ o, s.live i = some o → o.active = false
  | _ => True

def MovesInactive : Derived → List LambdaOp → Prop
  | _, [] => True
  | s, op :: ops => s.FromInactive op ∧ ∀ s', s.step op = some s' → MovesInactive s' ops

/-! ## What is owed -/

namespace Derived

variable {s s' : Derived}

def active (o : Option ScopedLambda) : Bool := o.any ScopedLambda.active

/-- Executions that are done, and those that active objects still owe. -/
def owed (s : Derived) : Nat := s.executions + s.objects.countP active

theorem live_eq {i : Nat} {o : ScopedLambda} (live : s.live i = some o) :
    s.objects[i]? = some (some o) := by
  unfold Derived.live at live
  cases found : s.objects[i]? with
  | none => simp [found] at live
  | some o' => simpa [found] using live

/-- Replacing an object trades what it owes for what the new one owes. -/
theorem countP_set_live {i : Nat} {o : ScopedLambda} (live : s.live i = some o)
    (o' : Option ScopedLambda) : (s.objects.set i o').countP active + o.fn =
      s.objects.countP active + if active o' then 1 else 0 := by
  obtain ⟨inside, here⟩ := List.getElem?_eq_some_iff.mp (live_eq live)
  have member : some o ∈ s.objects := here ▸ List.getElem_mem inside
  have counted : (if active (some o) then 1 else 0) ≤ s.objects.countP active := by
    split
    · rename_i isActive
      exact List.countP_pos_iff.mpr ⟨some o, member, isActive⟩
    · exact Nat.zero_le _
  have same : (if active (some o) then 1 else 0) = o.fn := rfl
  rw [List.countP_set inside, here]
  omega

/-- What an object no longer owes, deactivated or destroyed. -/
theorem countP_release {i : Nat} {o : ScopedLambda} (live : s.live i = some o)
    {o' : Option ScopedLambda} (released : active o' = false) :
    (s.objects.set i o').countP active + o.fn = s.objects.countP active := by
  have traded := countP_set_live live o'
  rw [released] at traded
  exact traded

theorem step_move {i : Nat} (stepped : s.step (.move i) = some s') :
    ∃ o, s.live i = some o ∧ s'.owed = s.owed + o.fn := by
  obtain ⟨o, live, rfl⟩ := Option.map_eq_some_iff.mp stepped
  refine ⟨o, live, ?_⟩
  simp only [owed, List.countP_append, List.countP_singleton]
  exact (Nat.add_assoc _ _ _).symm

theorem step_deactivate {i : Nat} (stepped : s.step (.deactivate i) = some s') :
    s'.owed ≤ s.owed := by
  obtain ⟨o, live, rfl⟩ := Option.map_eq_some_iff.mp stepped
  have released := countP_release live (show active (some o.deactivate) = false from rfl)
  simp only [owed]
  omega

theorem step_runAndExpire {i : Nat} (stepped : s.step (.runAndExpire i) = some s') :
    s'.owed = s.owed := by
  obtain ⟨o, live, rfl⟩ := Option.map_eq_some_iff.mp stepped
  have released := countP_release live (show active (some o.deactivate) = false from rfl)
  simp only [owed]
  omega

theorem step_destroy {i : Nat} (stepped : s.step (.destroy i) = some s') : s'.owed = s.owed := by
  obtain ⟨o, live, rfl⟩ := Option.map_eq_some_iff.mp stepped
  have released := countP_release live (show active none = false from rfl)
  simp only [owed]
  omega

theorem step_owed_le {op : LambdaOp} (stepped : s.step op = some s')
    (inactive : s.FromInactive op) : s'.owed ≤ s.owed := by
  cases op with
  | move i =>
    obtain ⟨o, live, owed⟩ := step_move stepped
    rw [owed, ScopedLambda.fn, inactive o live]
    exact Nat.le_refl _
  | deactivate i => exact step_deactivate stepped
  | runAndExpire i => exact Nat.le_of_eq (step_runAndExpire stepped)
  | destroy i => exact Nat.le_of_eq (step_destroy stepped)

theorem step_owed_ge {op : LambdaOp} (stepped : s.step op = some s')
    (kept : ∀ i, op ≠ .deactivate i) :
    s.owed ≤ s'.owed ∧ (s'.owed = s.owed → s.FromInactive op) := by
  cases op with
  | move i =>
    obtain ⟨o, live, owed⟩ := step_move stepped
    refine ⟨by omega, fun same o' live' => ?_⟩
    obtain rfl := Option.some.inj (live'.symm.trans live)
    have nothing : o'.fn = 0 := by omega
    cases flag : o'.active with
    | false => rfl
    | true => simp [ScopedLambda.fn, flag] at nothing
  | deactivate i => exact absurd rfl (kept i)
  | runAndExpire i => exact ⟨Nat.le_of_eq (step_runAndExpire stepped).symm, fun _ => trivial⟩
  | destroy i => exact ⟨Nat.le_of_eq (step_destroy stepped).symm, fun _ => trivial⟩

/-! ## Runs -/

theorem run_cons {op : LambdaOp} {ops : List LambdaOp} (ran : s.run (op :: ops) = some s') :
    ∃ mid, s.step op = some mid ∧ mid.run ops = some s' := Option.bind_eq_some_iff.mp ran

/-- Moving from inactive objects only, a run never owes more. -/
theorem run_owed_le {ops : List LambdaOp} (ran : s.run ops = some s')
    (inactive : MovesInactive s ops) : s'.owed ≤ s.owed := by
  induction ops generalizing s with
  | nil =>
    obtain rfl := Option.some.inj ran
    exact Nat.le_refl _
  | cons op ops ih =>
    obtain ⟨mid, stepped, rest⟩ := run_cons ran
    exact Nat.le_trans (ih rest (inactive.2 mid stepped)) (step_owed_le stepped inactive.1)

/-- With nothing deactivated, a run owes as much as before or more, and more once an active
object was moved from. -/
theorem run_owed_ge {ops : List LambdaOp} (ran : s.run ops = some s')
    (kept : ∀ op ∈ ops, ∀ i, op ≠ .deactivate i) :
    s.owed ≤ s'.owed ∧ (s'.owed = s.owed → MovesInactive s ops) := by
  induction ops generalizing s with
  | nil =>
    obtain rfl := Option.some.inj ran
    exact ⟨Nat.le_refl _, fun _ => trivial⟩
  | cons op ops ih =>
    obtain ⟨mid, stepped, rest⟩ := run_cons ran
    rw [List.forall_mem_cons] at kept
    obtain ⟨now, inactive⟩ := step_owed_ge stepped kept.1
    obtain ⟨later, inactives⟩ := ih rest kept.2
    refine ⟨Nat.le_trans now later, fun same => ⟨inactive (by omega), fun s'' again => ?_⟩⟩
    obtain rfl := Option.some.inj (again.symm.trans stepped)
    exact inactives (by omega)

theorem owed_destroyed (gone : ∀ o ∈ s.objects, o = none) : s.owed = s.executions := by
  have none_ : s.objects.countP active = 0 := by
    rw [List.countP_eq_zero]
    intro o member
    rw [gone o member]
    decide
  rw [owed, none_]
  rfl

end Derived

open Derived

theorem makeScopedLambda_kept (elided : Bool) :
    ∀ op ∈ makeScopedLambda elided, ∀ i, op ≠ .deactivate i := by
  cases elided <;> simp [makeScopedLambda]

/-- The action runs at most once, and exactly once where it should, in every run that moves
from inactive objects only; when nothing is deactivated and all is destroyed, in no other. -/
theorem runs_once_iff (elided : Bool) (ops : List LambdaOp) (s : Derived)
    (ran : scopedLambda.run (makeScopedLambda elided ++ ops) = some s) :
    (MovesInactive scopedLambda (makeScopedLambda elided ++ ops) → RunsOnce ops s) ∧
      ((∀ op ∈ ops, ∀ i, op ≠ .deactivate i) → (∀ o ∈ s.objects, o = none) →
        (RunsOnce ops s ↔ MovesInactive scopedLambda (makeScopedLambda elided ++ ops))) := by
  have start : scopedLambda.owed = 1 := rfl
  have atLeast (kept : ∀ op ∈ ops, ∀ i, op ≠ .deactivate i) := run_owed_ge ran
    (List.forall_mem_append.mpr ⟨makeScopedLambda_kept elided, kept⟩)
  have forward (inactive : MovesInactive scopedLambda (makeScopedLambda elided ++ ops)) :
      RunsOnce ops s := by
    have atMost := run_owed_le ran inactive
    constructor
    · exact Nat.le_trans (Nat.le_add_right _ _) (start ▸ atMost)
    · intro kept gone
      rw [← owed_destroyed gone]
      exact Nat.le_antisymm atMost (atLeast kept).1
  refine ⟨forward, fun kept gone => ⟨fun once => ?_, forward⟩⟩
  apply (atLeast kept).2
  rw [owed_destroyed gone, once.exactly kept gone, start]

theorem runs_once_iff_expired :
    (MovesInactive scopedLambda
        (makeScopedLambda true ++ [.runAndExpire 0, .move 0, .destroy 0, .destroy 1]) →
      RunsOnce [.runAndExpire 0, .move 0, .destroy 0, .destroy 1] ⟨[none, none], 1⟩) ∧
    ((∀ op ∈ [LambdaOp.runAndExpire 0, .move 0, .destroy 0, .destroy 1], ∀ i, op ≠ .deactivate i) →
      (∀ o ∈ ([none, none] : List (Option ScopedLambda)), o = none) →
      (RunsOnce [.runAndExpire 0, .move 0, .destroy 0, .destroy 1] ⟨[none, none], 1⟩ ↔
        MovesInactive scopedLambda
          (makeScopedLambda true ++ [.runAndExpire 0, .move 0, .destroy 0, .destroy 1]))) :=
  runs_once_iff true [.runAndExpire 0, .move 0, .destroy 0, .destroy 1] ⟨[none, none], 1⟩ rfl

/-- A guard that is moved once, both objects going out of scope. -/
theorem moved_guard_runs_twice :
    scopedLambda.run (makeScopedLambda true ++ [.move 0, .destroy 1, .destroy 0]) =
        some ⟨[none, none], 2⟩ ∧
      ¬ RunsOnce [.move 0, .destroy 1, .destroy 0] ⟨[none, none], 2⟩ :=
  ⟨rfl, fun once => absurd once.atMost (by decide)⟩

end Obstack
