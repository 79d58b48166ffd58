import Mathlib.Logic.Basic

/-! Systems that take one labelled step after the other, none where a step is not possible.
An invariant is shown for one step and holds after every run; a system whose states all have
an outcome that no step changes ends with the outcome of its start. -/
namespace Transitions

variable {σ α ρ : Type} (step : σ → α → Option σ)

def run (s : σ) : List α → Option σ
  | [] => some s
  | a :: acts => (step s a).bind (fun s => run s acts)

def Reaches (s s' : σ) : Prop := ∃ acts, run step s acts = some s'

variable {step}

theorem run_cons {s s' : σ} {a : α} {acts : List α} (ran : run step s (a :: acts) = some s') :
    ∃ mid, step s a = some mid ∧ run step mid acts = some s' := Option.bind_eq_some_iff.mp ran

theorem Reaches.refl (s : σ) : Reaches step s s := ⟨[], rfl⟩

theorem Reaches.cons {s mid s' : σ} {a : α} (stepped : step s a = some mid)
    (rest : Reaches step mid s') : Reaches step s s' := by
  obtain ⟨acts, ran⟩ := rest
  exact ⟨a :: acts, Option.bind_eq_some_iff.mpr ⟨mid, stepped, ran⟩⟩

/-- What every step keeps, every run keeps. -/
theorem Reaches.invariant {Inv : σ → Prop}
    (keeps : ∀ s a s', Inv s → step s a = some s' → Inv s') {s s' : σ}
    (reaches : Reaches step s s') (start : Inv s) : Inv s' := by
  obtain ⟨acts, ran⟩ := reaches
  induction acts generalizing s with
  | nil => exact Option.some.inj ran ▸ start
  | cons a acts ih =>
    obtain ⟨mid, stepped, rest⟩ := run_cons ran
    exact ih (keeps s a mid start stepped) rest

/-- A measure that every step within an invariant lowers bounds the length of every run. -/
theorem run_length_le {Inv : σ → Prop} {measure : σ → Nat}
    (keeps : ∀ s a s', Inv s → step s a = some s' → Inv s')
    (lowers : ∀ s a s', Inv s → step s a = some s' → measure s' < measure s) {s s' : σ}
    {acts : List α} (start : Inv s) (ran : run step s acts = some s') :
    acts.length + measure s' ≤ measure s := by
  induction acts generalizing s with
  | nil =>
    obtain rfl := Option.some.inj ran
    simp
  | cons a acts ih =>
    obtain ⟨mid, stepped, rest⟩ := run_cons ran
    have lower := lowers s a mid start stepped
    have later := ih (keeps s a mid start stepped) rest
    simp only [List.length_cons]
    omega

/-- From a state that can go on wherever it is not yet final, a final state is reached. -/
theorem reaches_final {measure : σ → Nat} {final : σ → Prop}
    (lowers : ∀ s a s', step s a = some s' → measure s' < measure s)
    (progress : ∀ s, ¬ final s → ∃ a s', step s a = some s') (s : σ) :
    ∃ s', Reaches step s s' ∧ final s' := by
  induction bound : measure s using Nat.strongRecOn generalizing s with
  | ind n ih =>
    by_cases ended : final s
    · exact ⟨s, Reaches.refl s, ended⟩
    · obtain ⟨a, mid, stepped⟩ := progress s ended
      have lower := lowers s a mid stepped
      obtain ⟨s', reaches, last⟩ := ih (measure mid) (bound ▸ lower) mid rfl
      exact ⟨s', Reaches.cons stepped reaches, last⟩

end Transitions
