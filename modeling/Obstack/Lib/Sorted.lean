import Mathlib.Data.List.Pairwise
import Mathlib.Data.List.Sort
import Mathlib.Data.List.TakeWhile
import Mathlib.Order.Basic

/-! std::upper_bound, std::sort and ascending lists of half-open ranges.
Sorting is unstable: only a permutation in order is promised, so a result is
determined by its input exactly where the keys are distinct. -/
namespace Sorted

section UpperBound

variable {α : Type} (p : α → Bool)

/-- The halving loop; p x says that the searched value comes before x. -/
def upperBoundLoop (xs : List α) : Nat → Nat → Nat → Nat
  | 0, first, _ => first
  | fuel + 1, first, len =>
    if len = 0 then first
    else
      let half := len / 2
      match xs[first + half]? with
      | none => first
      | some x =>
        if p x then upperBoundLoop xs fuel first half
        else upperBoundLoop xs fuel (first + half + 1) (len - half - 1)

/-- Index of the first element the value comes before, or the length. -/
def upperBound (xs : List α) : Nat := upperBoundLoop p xs xs.length 0 xs.length

theorem upperBound_map {β : Type} (f : β → α) (xs : List β) :
    upperBound p (xs.map f) = upperBound (fun x => p (f x)) xs := by
  have loop (fuel first len : Nat) : upperBoundLoop p (xs.map f) fuel first len =
      upperBoundLoop (fun x => p (f x)) xs fuel first len := by
    induction fuel generalizing first len with
    | zero => rfl
    | succ fuel ih =>
      simp only [upperBoundLoop, List.getElem?_map]
      cases xs[first + len / 2]? with
      | none => rfl
      | some x => simp only [Option.map_some, ih]
  rw [upperBound, upperBound, List.length_map, loop]

variable {p}

theorem upperBoundLoop_split {before after : List α}
    (low : ∀ x ∈ before, p x = false) (high : ∀ x ∈ after, p x = true)
    (fuel first len : Nat) (enough : len ≤ fuel) (lower : first ≤ before.length)
    (upper : before.length ≤ first + len) (inside : first + len ≤ (before ++ after).length) :
    upperBoundLoop p (before ++ after) fuel first len = before.length := by
  induction fuel generalizing first len with
  | zero => simp only [upperBoundLoop]; omega
  | succ fuel ih =>
    by_cases done : len = 0
    · simp only [upperBoundLoop, if_pos done]; omega
    · have bound : first + len / 2 < (before ++ after).length := by omega
      simp only [upperBoundLoop, if_neg done, List.getElem?_eq_getElem bound]
      by_cases left : first + len / 2 < before.length
      · have less : p (before ++ after)[first + len / 2] = false := by
          rw [List.getElem_append_left left]
          exact low _ (List.getElem_mem left)
        rw [if_neg (by simp [less])]
        apply ih <;> omega
      · have right : p (before ++ after)[first + len / 2] = true := by
          rw [List.getElem_append_right (Nat.le_of_not_lt left)]
          exact high _ (List.getElem_mem _)
        rw [if_pos right]
        apply ih <;> omega

theorem upperBound_split {before after : List α}
    (low : ∀ x ∈ before, p x = false) (high : ∀ x ∈ after, p x = true) :
    upperBound p (before ++ after) = before.length := by
  apply upperBoundLoop_split low high <;> simp

theorem upperBound_partition {xs : List α}
    (stable : xs.Pairwise (fun x y => p x = true → p y = true)) :
    ∃ before after, xs = before ++ after ∧ upperBound p xs = before.length ∧
      (∀ x ∈ before, p x = false) ∧ (∀ x ∈ after, p x = true) := by
  have parts := List.takeWhile_append_dropWhile (p := fun x => !p x) (l := xs)
  have low : ∀ x ∈ xs.takeWhile (fun x => !p x), p x = false := by
    intro x hx
    simpa using List.mem_takeWhile_imp hx
  have high : ∀ x ∈ xs.dropWhile (fun x => !p x), p x = true := by
    cases rest : xs.dropWhile (fun x => !p x) with
    | nil => simp
    | cons z zs =>
      have first : p z = true := by
        have := List.head?_dropWhile_not (fun x => !p x) xs
        simpa [rest] using this
      have tail := stable.sublist (List.dropWhile_sublist (fun x => !p x))
      rw [rest] at tail
      intro x hx
      rcases List.mem_cons.mp hx with rfl | hx
      · exact first
      · exact (List.pairwise_cons.mp tail).1 x hx first
  have index := upperBound_split low high
  rw [parts] at index
  exact ⟨_, _, parts.symm, index, low, high⟩

end UpperBound

/-- An implementation of std::sort for one comparator: any permutation in order. -/
structure StdSort {α : Type} (less : α → α → Bool) where
  run : List α → List α
  perm : ∀ xs, (run xs).Perm xs
  ordered : ∀ xs, (run xs).Pairwise (fun a b => less b a = false)

/-- Two sorts agree on elements of which any two can be told apart by the comparator. -/
theorem StdSort.run_eq {α : Type} {less : α → α → Bool} (sort sort' : StdSort less) {xs ys : List α}
    (same : xs.Perm ys)
    (apart : ∀ a ∈ xs, ∀ b ∈ xs, less a b = false → less b a = false → a = b) :
    sort.run xs = sort'.run ys := by
  have reordered : (sort.run xs).Perm (sort'.run ys) :=
    (sort.perm xs).trans (same.trans (sort'.perm ys).symm)
  refine List.Perm.eq_of_pairwise ?_ (sort.ordered xs) (sort'.ordered ys) reordered
  intro a b ha hb notAbove notBelow
  exact apart a ((sort.perm xs).subset ha) b (same.symm.subset ((sort'.perm ys).subset hb))
    notBelow notAbove

def StdSort.byKey {α κ : Type} [LinearOrder κ] (key : α → κ) (less : α → α → Bool)
    (agree : ∀ a b, less a b = true ↔ key a < key b) : StdSort less where
  run xs := xs.insertionSort (fun a b => key a ≤ key b)
  perm xs := List.perm_insertionSort _ xs
  ordered xs := by
    have total : Std.Total (fun a b : α => key a ≤ key b) := ⟨fun a b => le_total _ _⟩
    have trans : IsTrans α (fun a b : α => key a ≤ key b) := ⟨fun _ _ _ => le_trans⟩
    have sorted := List.pairwise_insertionSort (fun a b : α => key a ≤ key b) xs
    refine sorted.imp (fun order => ?_)
    exact Bool.eq_false_iff.mpr (fun less => absurd ((agree _ _).mp less) (not_lt.mpr order))

section Ranges

variable {α β : Type} [LinearOrder β] (lo hi : α → β)

def Covers (a : β) (x : α) : Prop := lo x ≤ a ∧ a < hi x

instance (a : β) (x : α) : Decidable (Covers lo hi a x) := inferInstanceAs (Decidable (_ ∧ _))

/-- Non-empty ranges in ascending order, each ending before the next begins. -/
structure Ascending (xs : List α) : Prop where
  nonempty : ∀ x ∈ xs, lo x < hi x
  apart : xs.Pairwise (fun x y => hi x ≤ lo y)

/-- Non-empty ranges that do not overlap, in any order. -/
structure Disjoint (xs : List α) : Prop where
  nonempty : ∀ x ∈ xs, lo x < hi x
  apart : xs.Pairwise (fun x y => hi x ≤ lo y ∨ hi y ≤ lo x)

variable {lo hi}

theorem Ascending.disjoint {xs : List α} (h : Ascending lo hi xs) : Disjoint lo hi xs :=
  ⟨h.nonempty, h.apart.imp Or.inl⟩

theorem Disjoint.sublist {xs ys : List α} (h : Disjoint lo hi ys) (sub : xs.Sublist ys) :
    Disjoint lo hi xs :=
  ⟨fun x hx => h.nonempty x (sub.subset hx), h.apart.sublist sub⟩

theorem Disjoint.perm {xs ys : List α} (h : Disjoint lo hi ys) (same : xs.Perm ys) :
    Disjoint lo hi xs :=
  ⟨fun x hx => h.nonempty x (same.subset hx), h.apart.perm same.symm (fun s => s.symm)⟩

theorem disjoint_map {γ : Type} {f : γ → α} {xs : List γ} :
    Disjoint lo hi (xs.map f) ↔ Disjoint (fun c => lo (f c)) (fun c => hi (f c)) xs := by
  constructor
  · rintro ⟨nonempty, apart⟩
    exact ⟨fun c hc => nonempty (f c) (List.mem_map_of_mem hc), List.pairwise_map.mp apart⟩
  · rintro ⟨nonempty, apart⟩
    refine ⟨fun x hx => ?_, List.pairwise_map.mpr apart⟩
    obtain ⟨c, hc, rfl⟩ := List.mem_map.mp hx
    exact nonempty c hc

theorem Disjoint.eq_or_apart {xs : List α} (h : Disjoint lo hi xs) {x y : α} (hx : x ∈ xs)
    (hy : y ∈ xs) : x = y ∨ hi x ≤ lo y ∨ hi y ≤ lo x := by
  by_cases same : x = y
  · exact Or.inl same
  · have symm : Std.Symm (fun x y : α => hi x ≤ lo y ∨ hi y ≤ lo x) := ⟨fun _ _ apart => apart.symm⟩
    exact Or.inr (h.apart.forall hx hy same)

theorem Ascending.strict_lo {xs : List α} (h : Ascending lo hi xs) :
    xs.Pairwise (fun x y => lo x < lo y) :=
  List.Pairwise.imp_of_mem (fun hx _ apart => (h.nonempty _ hx).trans_le apart) h.apart

theorem Ascending.strict_hi {xs : List α} (h : Ascending lo hi xs) :
    xs.Pairwise (fun x y => hi x < hi y) :=
  List.Pairwise.imp_of_mem (fun _ hy apart => apart.trans_lt (h.nonempty _ hy)) h.apart

theorem Disjoint.ascending {xs : List α} (h : Disjoint lo hi xs)
    (ordered : xs.Pairwise (fun x y => lo x ≤ lo y)) : Ascending lo hi xs := by
  refine ⟨h.nonempty, List.Pairwise.imp_of_mem ?_ (h.apart.and ordered)⟩
  rintro x y hx hy ⟨left | right, order⟩
  · exact left
  · exact absurd ((h.nonempty y hy).trans_le (right.trans order)) (lt_irrefl _)

theorem Ascending.eq_of_lo {xs : List α} (h : Ascending lo hi xs) {x y : α} (hx : x ∈ xs)
    (hy : y ∈ xs) (same : lo x = lo y) : x = y := by
  rcases h.disjoint.eq_or_apart hx hy with eq | left | right
  · exact eq
  · exact absurd ((h.nonempty x hx).trans_le left) (by simp [same])
  · exact absurd ((h.nonempty y hy).trans_le right) (by simp [same])

theorem Ascending.split {xs : List α} (h : Ascending lo hi xs) {x : α} (member : x ∈ xs) :
    ∃ before after, xs = before ++ x :: after ∧
      (∀ y ∈ before, hi y ≤ lo x) ∧ (∀ y ∈ after, hi x ≤ lo y) := by
  obtain ⟨before, after, rfl⟩ := List.append_of_mem member
  have apart := List.pairwise_append.mp h.apart
  exact ⟨before, after, rfl, fun y hy => apart.2.2 y hy x (by simp),
    (List.pairwise_cons.mp apart.2.1).1⟩

/-! The two searches: the first range ending after a, and the last one starting at or before it. -/

def firstEndingAfter (hi : α → β) (a : β) (xs : List α) : Option α :=
  xs[upperBound (fun x => decide (a < hi x)) xs]?

/-- Step back from the first range starting after a; none when that is the first of all. -/
def lastStartingBy (lo : α → β) (a : β) (xs : List α) : Option α :=
  if upperBound (fun x => decide (a < lo x)) xs = 0 then none
  else xs[upperBound (fun x => decide (a < lo x)) xs - 1]?

theorem Ascending.firstEndingAfter_covered {xs : List α} (h : Ascending lo hi xs) {a : β} {x : α}
    (member : x ∈ xs) (covers : Covers lo hi a x) : firstEndingAfter hi a xs = some x := by
  obtain ⟨before, after, rfl, low, high⟩ := h.split member
  have below : ∀ y ∈ before, decide (a < hi y) = false := by
    intro y hy
    simpa using (low y hy).trans covers.1
  have above : ∀ y ∈ x :: after, decide (a < hi y) = true := by
    intro y hy
    rcases List.mem_cons.mp hy with rfl | hy'
    · simpa using covers.2
    · have wide := h.nonempty y (by simp [hy'])
      simpa using (covers.2.trans_le (high y hy')).trans wide
  rw [firstEndingAfter, upperBound_split below above]
  simp

theorem Ascending.lastStartingBy_covered {xs : List α} (h : Ascending lo hi xs) {a : β} {x : α}
    (member : x ∈ xs) (covers : Covers lo hi a x) : lastStartingBy lo a xs = some x := by
  obtain ⟨before, after, rfl, low, high⟩ := h.split member
  have below : ∀ y ∈ before ++ [x], decide (a < lo y) = false := by
    intro y hy
    rcases List.mem_append.mp hy with hy | hy
    · have wide := h.nonempty y (by simp [hy])
      simpa using (wide.le.trans (low y hy)).trans covers.1
    · simpa [List.mem_singleton.mp hy] using covers.1
  have above : ∀ y ∈ after, decide (a < lo y) = true := by
    intro y hy
    simpa using covers.2.trans_le (high y hy)
  have index := upperBound_split below above
  rw [List.append_assoc] at index
  simp only [List.singleton_append, List.length_append, List.length_singleton] at index
  simp [lastStartingBy, index]

theorem lastStartingBy_mem {xs : List α} {a : β} {x : α} (found : lastStartingBy lo a xs = some x) :
    x ∈ xs := by
  unfold lastStartingBy at found
  split at found
  · contradiction
  · exact List.mem_of_getElem? found

theorem firstEndingAfter_mem {xs : List α} {a : β} {x : α}
    (found : firstEndingAfter hi a xs = some x) : x ∈ xs :=
  List.mem_of_getElem? found

end Ranges

end Sorted
