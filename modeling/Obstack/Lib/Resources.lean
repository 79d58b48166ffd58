import Mathlib.Data.List.Basic
import Mathlib.Data.List.Nodup

/-! Programs that open handles and close them. A handle is a number that is given out once;
closing one that is not open is an error. A specification names the handles a program owns, what
it returns and what it leaves open of its own; whatever else is open stays as it is. -/
namespace Resources

/-- The handles that are open, oldest first, each with what it is of. -/
structure Handles (κ : Type) where
  next : Nat := 0
  live : List (Nat × κ) := []

abbrev Using (κ α : Type) : Type := StateT (Handles κ) Option α

section Programs

variable {κ α β : Type}

def acquire (k : κ) : Using κ Nat := fun s =>
  some (s.next, { next := s.next + 1, live := s.live ++ [(s.next, k)] })

/-- none where the handle is not open. -/
def release (h : Nat) : Using κ Unit := fun s =>
  if h ∈ s.live.map Prod.fst then some ((), { s with live := s.live.filter (fun e => e.1 ≠ h) })
  else none

/-- No handle is open twice, and none that has not been given out. -/
structure Handles.Distinct (s : Handles κ) : Prop where
  once : (s.live.map Prod.fst).Nodup
  given : ∀ e ∈ s.live, e.1 < s.next

/-- Started with its own handles open beside others, the program returns a, and of its own leaves
handles of the kinds in left. -/
def Leaves (owned : List (Nat × κ)) (p : Using κ α) (a : α) (left : List κ) : Prop :=
  ∀ (s : Handles κ) (others : List (Nat × κ)), s.Distinct → s.live = others ++ owned →
    ∃ s' new, p s = some (a, s') ∧ s'.Distinct ∧ s'.live = others ++ new ∧ new.map Prod.snd = left

theorem leaves_pure (owned : List (Nat × κ)) (a : α) :
    Leaves owned (pure a) a (owned.map Prod.snd) :=
  fun s _ distinct live => ⟨s, owned, rfl, distinct, live, rfl⟩

/-- What else is open takes no part. -/
theorem Leaves.frame {owned : List (Nat × κ)} {p : Using κ α} {a : α} {left : List κ}
    (spec : Leaves owned p a left) (beside : List (Nat × κ)) :
    Leaves (beside ++ owned) p a (beside.map Prod.snd ++ left) := by
  intro s others distinct live
  obtain ⟨s', new, ran, distinct', live', kinds⟩ :=
    spec s (others ++ beside) distinct (by rw [live, List.append_assoc])
  exact ⟨s', beside ++ new, ran, distinct', by rw [live', List.append_assoc],
    by rw [List.map_append, kinds]⟩

theorem Leaves.acquire {owned : List (Nat × κ)} {k : κ} {f : Nat → Using κ β} {b : β}
    {left : List κ} (rest : ∀ h, Leaves (owned ++ [(h, k)]) (f h) b left) :
    Leaves owned (Resources.acquire k >>= f) b left := by
  intro s others distinct live
  have grown : Handles.Distinct { next := s.next + 1, live := s.live ++ [(s.next, k)] } := by
    constructor
    · have fresh : s.next ∉ s.live.map Prod.fst := by
        intro member
        obtain ⟨e, open_, same⟩ := List.mem_map.mp member
        exact Nat.lt_irrefl _ (same ▸ distinct.given e open_)
      rw [List.map_append, List.nodup_append_comm]
      exact List.nodup_cons.mpr ⟨fresh, distinct.once⟩
    · intro e member
      rcases List.mem_append.mp member with old | new
      · exact Nat.lt_succ_of_lt (distinct.given e old)
      · obtain rfl := List.mem_singleton.mp new
        exact Nat.lt_succ_self _
  exact rest s.next _ others grown (by rw [live, List.append_assoc])

theorem Leaves.release {before after : List (Nat × κ)} {h : Nat} {k : κ} {p : Using κ β} {b : β}
    {left : List κ} (rest : Leaves (before ++ after) p b left) :
    Leaves (before ++ (h, k) :: after) (Resources.release h >>= fun _ => p) b left := by
  intro s others distinct live
  have split : s.live = (others ++ before) ++ (h, k) :: after := by rw [live, List.append_assoc]
  have once : (((others ++ before) ++ (h, k) :: after).map Prod.fst).Nodup := split ▸ distinct.once
  rw [List.map_append, List.map_cons, List.nodup_middle, List.nodup_cons] at once
  have other : ∀ e ∈ (others ++ before) ++ after, decide (e.1 ≠ h) = true := by
    intro e member
    refine decide_eq_true fun same => once.1 ?_
    have key : e.1 ∈ ((others ++ before) ++ after).map Prod.fst := List.mem_map_of_mem member
    rwa [same, List.map_append] at key
  have closed : s.live.filter (fun e => e.1 ≠ h) = others ++ (before ++ after) := by
    rw [split, List.filter_append, List.filter_cons_of_neg (by simp), ← List.filter_append,
      List.filter_eq_self.mpr other, List.append_assoc]
  have there : h ∈ s.live.map Prod.fst := by simp [split]
  have shrunk : Handles.Distinct { s with live := s.live.filter (fun e => e.1 ≠ h) } :=
    ⟨distinct.once.sublist (List.filter_sublist.map _), fun e member =>
      distinct.given e (List.mem_of_mem_filter member)⟩
  obtain ⟨s', new, ran, spec⟩ := rest _ others shrunk closed
  refine ⟨s', new, ?_, spec⟩
  exact Option.bind_eq_some_iff.mpr ⟨_, if_pos there, ran⟩

/-- Last opened, first closed. -/
theorem Leaves.release_last {owned : List (Nat × κ)} {h : Nat} {k : κ} {p : Using κ β} {b : β}
    {left : List κ} (rest : Leaves owned p b left) :
    Leaves (owned ++ [(h, k)]) (Resources.release h >>= fun _ => p) b left := by
  refine Leaves.release ?_
  rwa [List.append_nil]

/-- A call, and then a program that owns what the call has left. -/
theorem Leaves.call {owned : List (Nat × κ)} {p : Using κ α} {f : α → Using κ β} {a : α} {b : β}
    {mid left : List κ} (first : Leaves [] p a mid)
    (rest : ∀ new : List (Nat × κ), new.map Prod.snd = mid → Leaves (owned ++ new) (f a) b left) :
    Leaves owned (p >>= f) b left := by
  intro s others distinct live
  obtain ⟨s', new, ran, distinct', live', kinds⟩ :=
    first s (others ++ owned) distinct (by rw [live, List.append_nil])
  obtain ⟨last, new', ran', spec⟩ :=
    rest new kinds s' others distinct' (by rw [live', List.append_assoc])
  exact ⟨last, new', Option.bind_eq_some_iff.mpr ⟨(a, s'), ran, ran'⟩, spec⟩

/-- One after the other: what both leave. -/
theorem Leaves.bind {p : Using κ α} {f : α → Using κ β} {a : α} {b : β} {left more : List κ}
    (first : Leaves [] p a left) (second : Leaves [] (f a) b more) :
    Leaves [] (p >>= f) b (left ++ more) := by
  refine first.call fun new kinds => ?_
  have framed := second.frame new
  rwa [kinds, List.append_nil] at framed

theorem Leaves.returning {p : Using κ α} {a : α} {left : List κ} (spec : Leaves [] p a left)
    (g : α → β) : Leaves [] (p >>= fun x => pure (g x)) (g a) left := by
  have both := spec.bind (f := fun x => pure (g x)) (leaves_pure [] (g a))
  rwa [List.map_nil, List.append_nil] at both

end Programs

end Resources
