import Mathlib.Data.List.Basic
import Mathlib.Logic.Function.Iterate

/-! Loops that run an index over vectors, and what they are without the index. -/
namespace Loops

variable {α β σ : Type}

section Update

variable (g : α → β → β)

/-- One iteration of a loop that overwrites the i-th result from the i-th input. -/
def update (xs : List α) (ys : List β) (i : Nat) : List β :=
  match xs[i]?, ys[i]? with
  | some x, some y => ys.set i (g x y)
  | _, _ => ys

theorem update_succ (x : α) (y : β) (xs : List α) (ys : List β) (i : Nat) :
    update g (x :: xs) (y :: ys) (i + 1) = y :: update g xs ys i := by
  simp only [update, List.getElem?_cons_succ]
  cases xs[i]? with
  | none => rfl
  | some a => cases ys[i]? <;> rfl

theorem update_loop_succ (x : α) (y : β) (xs : List α) (ys : List β) (is : List Nat) :
    (is.map Nat.succ).foldl (update g (x :: xs)) (y :: ys) = y :: is.foldl (update g xs) ys := by
  induction is generalizing ys with
  | nil => rfl
  | cons i is ih =>
    simp only [List.map_cons, List.foldl_cons]
    rw [Nat.succ_eq_add_one, update_succ, ih]

theorem update_loop (xs : List α) (ys : List β) (aligned : xs.length = ys.length) :
    (List.range xs.length).foldl (update g xs) ys = List.zipWith g xs ys := by
  induction xs generalizing ys with
  | nil => cases ys <;> simp_all
  | cons x xs ih =>
    cases ys with
    | nil => simp at aligned
    | cons y ys =>
      have first : update g (x :: xs) (y :: ys) 0 = g x y :: ys := rfl
      rw [List.length_cons, List.range_succ_eq_map, List.foldl_cons, first, update_loop_succ,
        ih ys (by simpa using aligned), List.zipWith_cons_cons]

end Update

section Modify

variable (f : α → α)

/-- A loop that applies f at one index after the other: each entry as often as its index comes. -/
theorem getElem?_modify_loop (xs : List α) (is : List Nat) (i : Nat) :
    (is.foldl (fun xs k => xs.modify k f) xs)[i]? = xs[i]?.map f^[is.count i] := by
  induction is generalizing xs with
  | nil => simp
  | cons k is ih =>
    rw [List.foldl_cons, ih, List.count_cons]
    by_cases here : k = i
    · subst here
      rw [List.getElem?_modify_eq, Option.map_eq_map, Option.map_map, beq_self_eq_true, if_pos rfl]
      rfl
    · rw [List.getElem?_modify_ne f xs here, if_neg (by simpa using here), Nat.add_zero]

theorem modify_loop_once {xs : List α} {is : List Nat} (once : is.Perm (List.range xs.length)) :
    is.foldl (fun xs k => xs.modify k f) xs = xs.map f := by
  apply List.ext_getElem?
  intro i
  rw [getElem?_modify_loop, List.getElem?_map, once.count_eq]
  by_cases inside : i < xs.length
  · rw [List.nodup_range.count, if_pos (List.mem_range.mpr inside)]
    rfl
  · rw [List.getElem?_eq_none (Nat.le_of_not_lt inside)]
    rfl

end Modify

section Monad

variable {m : Type → Type} [Monad m] [LawfulMonad m]

/-- An index loop whose reads are checked, over the indices of the list alone. -/
theorem foldlM_range {read : Option α → m α} (there : ∀ x, read (some x) = pure x)
    (f : σ → α → m σ) (xs : List α) (s : σ) :
    (List.range xs.length).foldlM (fun s i => read xs[i]? >>= f s) s = xs.foldlM f s := by
  induction xs generalizing s with
  | nil => rfl
  | cons x xs ih =>
    simp only [List.length_cons, List.range_succ_eq_map, List.foldlM_cons, List.foldlM_map,
      List.getElem?_cons_zero, List.getElem?_cons_succ, there, pure_bind]
    congr 1
    funext s
    exact ih s

theorem foldlM_flatMap (f : σ → β → m σ) (g : α → List β) (xs : List α) (s : σ) :
    (xs.flatMap g).foldlM f s = xs.foldlM (fun s x => (g x).foldlM f s) s := by
  induction xs generalizing s with
  | nil => rfl
  | cons x xs ih =>
    simp only [List.flatMap_cons, List.foldlM_append, List.foldlM_cons]
    congr 1
    funext s
    exact ih s

end Monad

/-- A fold whose every step may or may not contribute, as a fold over the contributions. -/
theorem foldlM_contributions (next : α → Option (Option β)) (step : σ → β → σ) (xs : List α) (s : σ)
    (total : ∀ x ∈ xs, (next x).isSome = true) :
    xs.foldlM (fun s x => (next x).map fun | none => s | some y => step s y) s =
      some ((xs.filterMap (fun x => (next x).join)).foldl step s) := by
  induction xs generalizing s with
  | nil => rfl
  | cons x xs ih =>
    obtain ⟨y, found⟩ := Option.isSome_iff_exists.mp (total x (by simp))
    have rest := fun s => ih s (fun z hz => total z (by simp [hz]))
    rw [List.foldlM_cons, found]
    cases y with
    | none => simpa [List.filterMap_cons, found] using rest s
    | some y => simpa [List.filterMap_cons, found] using rest (step s y)

section Errors

variable {ε : Type} {f : σ → α → Except ε σ} {Inv : σ → Prop} {Bad : ε → Prop}

/-- Steps that never fail and keep an invariant: neither does the fold. -/
theorem foldlM_total (step : ∀ s x, Inv s → ∃ s', f s x = .ok s' ∧ Inv s') (xs : List α) {s : σ}
    (start : Inv s) : ∃ s', xs.foldlM f s = .ok s' ∧ Inv s' := by
  induction xs generalizing s with
  | nil => exact ⟨s, rfl, start⟩
  | cons x xs ih =>
    obtain ⟨mid, stepped, kept⟩ := step s x start
    rw [List.foldlM_cons, stepped]
    exact ih kept

section Failing

variable
  (step : ∀ s x, Inv s → (∃ s', f s x = .ok s' ∧ Inv s') ∨ ∃ e, f s x = .error e ∧ Bad e)
include step

/-- Steps that keep an invariant or fail as they may. -/
theorem foldlM_cases (xs : List α) {s : σ} (start : Inv s) :
    (∃ s', xs.foldlM f s = .ok s' ∧ Inv s') ∨ ∃ e, xs.foldlM f s = .error e ∧ Bad e := by
  induction xs generalizing s with
  | nil => exact Or.inl ⟨s, rfl, start⟩
  | cons x xs ih =>
    rw [List.foldlM_cons]
    rcases step s x start with ⟨mid, stepped, kept⟩ | ⟨e, failed, bad⟩
    · rw [stepped]
      exact ih kept
    · exact Or.inr ⟨e, by rw [failed]; rfl, bad⟩

/-- One of the steps fails from every state. -/
theorem foldlM_fails {x : α} (fails : ∀ s, Inv s → ∃ e, f s x = .error e ∧ Bad e) {xs : List α}
    (member : x ∈ xs) {s : σ} (start : Inv s) : ∃ e, xs.foldlM f s = .error e ∧ Bad e := by
  induction xs generalizing s with
  | nil => cases member
  | cons y xs ih =>
    rw [List.foldlM_cons]
    rcases List.mem_cons.mp member with rfl | later
    · obtain ⟨e, failed, bad⟩ := fails s start
      exact ⟨e, by rw [failed]; rfl, bad⟩
    · rcases step s y start with ⟨mid, stepped, kept⟩ | ⟨e, failed, bad⟩
      · rw [stepped]
        exact ih later kept
      · exact ⟨e, by rw [failed]; rfl, bad⟩

end Failing

end Errors

section Answers

variable {ν κ : Type} (step : σ → κ → Option (σ × ν))

/-- A query after the other, with the state each leaves to the next; all the answers. -/
def answerAll : σ → List κ → Option (σ × List ν)
  | s, [] => some (s, [])
  | s, k :: ks =>
    (step s k).bind fun r => (answerAll r.1 ks).map fun rest => (rest.1, r.2 :: rest.2)

variable {step} {Inv : List κ → σ → Prop} {Answer : κ → ν → Prop}

/-- Queries that are all answered as they should be, each from what those before have left. -/
theorem answerAll_answers
    (answers : ∀ done s k, Inv done s →
      ∃ s' v, step s k = some (s', v) ∧ Answer k v ∧ Inv (done ++ [k]) s')
    {done : List κ} {s : σ} (start : Inv done s) (ks : List κ) :
    ∃ s' vs, answerAll step s ks = some (s', vs) ∧ List.Forall₂ Answer ks vs ∧
      Inv (done ++ ks) s' := by
  induction ks generalizing done s with
  | nil => exact ⟨s, [], rfl, List.Forall₂.nil, by rwa [List.append_nil]⟩
  | cons k ks ih =>
    obtain ⟨mid, v, stepped, answered, kept⟩ := answers done s k start
    obtain ⟨last, vs, ran, rest, ended⟩ := ih kept
    refine ⟨last, v :: vs, ?_, List.Forall₂.cons answered rest, ?_⟩
    · rw [answerAll, stepped, Option.bind_some, ran]
      rfl
    · rwa [List.append_assoc] at ended

end Answers

end Loops
