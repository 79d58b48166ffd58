import Mathlib.Data.List.Basic
import Mathlib.Order.Bounds.Basic
import Obstack.Lib.Sorted

/-! Maximal runs of consecutive elements with equal keys, and the one-pass loop
that folds each run while reading the list. A run is non-empty by construction. -/
namespace Runs

structure Run (α : Type) where
  first : α
  others : List α
  deriving DecidableEq, Repr

namespace Run

variable {α : Type}

def toList (r : Run α) : List α := r.first :: r.others

def last (r : Run α) : α := r.toList.getLast (by simp [toList])

def map {β : Type} (f : α → β) (r : Run α) : Run β := ⟨f r.first, r.others.map f⟩

@[simp] theorem first_mem (r : Run α) : r.first ∈ r.toList := by simp [toList]

@[simp] theorem last_mem (r : Run α) : r.last ∈ r.toList := List.getLast_mem _

end Run

section Key

variable {α κ : Type} [DecidableEq κ] (key : α → κ)

def cons (a : α) : List (Run α) → List (Run α)
  | [] => [⟨a, []⟩]
  | r :: rs => if key a = key r.first then ⟨a, r.toList⟩ :: rs else ⟨a, []⟩ :: r :: rs

def runs (xs : List α) : List (Run α) := xs.foldr (cons key) []

variable {key}

@[simp] theorem runs_nil : runs key ([] : List α) = [] := rfl
@[simp] theorem runs_cons (a : α) (xs : List α) : runs key (a :: xs) = cons key a (runs key xs) := rfl

theorem cons_flatMap (a : α) (rs : List (Run α)) :
    (cons key a rs).flatMap Run.toList = a :: rs.flatMap Run.toList := by
  cases rs with
  | nil => rfl
  | cons r rs =>
    by_cases same : key a = key r.first
    · simp [cons, same, Run.toList]
    · simp [cons, same, Run.toList]

theorem runs_flatMap (xs : List α) : (runs key xs).flatMap Run.toList = xs := by
  induction xs with
  | nil => rfl
  | cons a xs ih => rw [runs_cons, cons_flatMap, ih]

theorem mem_runs {xs : List α} {a : α} : a ∈ xs ↔ ∃ r ∈ runs key xs, a ∈ r.toList := by
  rw [← List.mem_flatMap, runs_flatMap]

theorem runs_key {xs : List α} {r : Run α} (member : r ∈ runs key xs) :
    ∀ a ∈ r.toList, key a = key r.first := by
  induction xs generalizing r with
  | nil => simp at member
  | cons b xs ih =>
    rw [runs_cons] at member
    cases rest : runs key xs with
    | nil =>
      rw [rest] at member
      obtain rfl : r = ⟨b, []⟩ := by simpa [cons] using member
      simp [Run.toList]
    | cons s rs =>
      rw [rest] at member ih
      by_cases same : key b = key s.first
      · rw [cons, if_pos same] at member
        rcases List.mem_cons.mp member with rfl | old
        · intro a ha
          rcases List.mem_cons.mp ha with rfl | ha
          · rfl
          · exact (ih List.mem_cons_self a ha).trans same.symm
        · exact ih (List.mem_cons_of_mem s old)
      · rw [cons, if_neg same] at member
        rcases List.mem_cons.mp member with rfl | old
        · simp [Run.toList]
        · exact ih old

theorem runs_pairwise {R : α → α → Prop} {xs : List α} (h : xs.Pairwise R) :
    (runs key xs).Pairwise (fun r s => ∀ a ∈ r.toList, ∀ b ∈ s.toList, R a b) := by
  rw [← (runs_flatMap xs : (runs key xs).flatMap Run.toList = xs), List.flatMap_def,
    List.pairwise_flatten, List.pairwise_map] at h
  exact h.2

theorem runs_map {γ : Type} (f : γ → α) (xs : List γ) :
    runs key (xs.map f) = (runs (fun c => key (f c)) xs).map (Run.map f) := by
  induction xs with
  | nil => rfl
  | cons c xs ih =>
    rw [List.map_cons, runs_cons, runs_cons, ih]
    cases runs (fun c => key (f c)) xs with
    | nil => rfl
    | cons r rs =>
      by_cases join : key (f c) = key (f r.first)
      · simp [cons, join, Run.map, Run.toList]
      · simp [cons, join, Run.map]

theorem runs_congr {κ' : Type} [DecidableEq κ'] {key' : α → κ'} {xs : List α}
    (agree : ∀ a ∈ xs, ∀ b ∈ xs, key a = key b ↔ key' a = key' b) : runs key xs = runs key' xs := by
  induction xs with
  | nil => rfl
  | cons a xs ih =>
    have tail := ih (fun b hb c hc => agree b (by simp [hb]) c (by simp [hc]))
    rw [runs_cons, runs_cons, tail]
    cases rest : runs key' xs with
    | nil => rfl
    | cons r rs =>
      have member : r.first ∈ xs := mem_runs.mpr ⟨r, by rw [rest]; simp, r.first_mem⟩
      have same := agree a (by simp) r.first (by simp [member])
      by_cases join : key' a = key' r.first
      · simp [cons, join, same.mpr join]
      · simp [cons, join, mt same.mp join]

theorem run_sublist {xs : List α} {r : Run α} (member : r ∈ runs key xs) : r.toList.Sublist xs := by
  have inside := List.sublist_flatten_of_mem (List.mem_map_of_mem (f := Run.toList) member)
  rwa [← List.flatMap_def, runs_flatMap] at inside

end Key

section Loop

variable {α κ σ : Type} [DecidableEq κ] (key : α → κ) (start : α → σ) (extend : σ → α → σ)

/-- Read on while the key stays, otherwise emit what was folded and start again. -/
def groupLoop : κ → σ → List α → List σ
  | _, acc, [] => [acc]
  | k, acc, a :: as =>
    if key a = k then groupLoop k (extend acc a) as
    else acc :: groupLoop (key a) (start a) as

def summary (r : Run α) : σ := r.others.foldl extend (start r.first)

theorem groupLoop_runs (k : κ) (acc : σ) (xs : List α) :
    groupLoop key start extend k acc xs =
      match runs key xs with
      | [] => [acc]
      | r :: rs =>
        if key r.first = k then r.toList.foldl extend acc :: rs.map (summary start extend)
        else acc :: (r :: rs).map (summary start extend) := by
  induction xs generalizing k acc with
  | nil => rfl
  | cons a xs ih =>
    rw [groupLoop, runs_cons]
    by_cases same : key a = k
    · subst same
      rw [if_pos rfl, ih]
      cases runs key xs with
      | nil => simp [cons, Run.toList]
      | cons r rs =>
        by_cases join : key r.first = key a
        · simp [cons, join, Run.toList]
        · simp [cons, join, Ne.symm join, Run.toList]
    · rw [if_neg same, ih]
      cases runs key xs with
      | nil => simp [cons, same, summary]
      | cons r rs =>
        by_cases join : key r.first = key a
        · simp [cons, join, same, summary, Run.toList]
        · simp [cons, join, Ne.symm join, same, summary]

/-- The loop, started on the first element, folds exactly the maximal runs. -/
theorem groupLoop_eq (a : α) (xs : List α) :
    groupLoop key start extend (key a) (start a) xs =
      (runs key (a :: xs)).map (summary start extend) := by
  rw [groupLoop_runs, runs_cons]
  cases rest : runs key xs with
  | nil => simp [cons, summary]
  | cons r rs =>
    by_cases join : key a = key r.first
    · simp [cons, join, summary]
    · simp [cons, join, Ne.symm join, summary]

end Loop

/-! ## Hulls of runs of ascending ranges -/

section Hull

variable {α β κ : Type} [LinearOrder β] [DecidableEq κ] {key : α → κ} {lo hi : α → β}

theorem Run.ascending_first {r : Run α} (h : Sorted.Ascending lo hi r.toList) :
    ∀ a ∈ r.toList, lo r.first ≤ lo a := by
  intro a ha
  rcases List.mem_cons.mp ha with rfl | ha
  · exact le_rfl
  · exact ((List.pairwise_cons.mp h.strict_lo).1 a ha).le

theorem Run.ascending_last {r : Run α} (h : Sorted.Ascending lo hi r.toList) :
    ∀ a ∈ r.toList, hi a ≤ hi r.last := by
  intro a ha
  have split := List.dropLast_append_getLast (l := r.toList) (by simp [Run.toList])
  rw [← split] at ha
  rcases List.mem_append.mp ha with ha | ha
  · have strict := h.strict_hi
    rw [← split] at strict
    exact ((List.pairwise_append.mp strict).2.2 a ha r.last (by simp [Run.last])).le
  · rw [List.mem_singleton.mp ha]
    exact le_rfl

theorem hull_ascending {xs : List α} (h : Sorted.Ascending lo hi xs) :
    Sorted.Ascending (fun r : Run α => lo r.first) (fun r => hi r.last) (runs key xs) := by
  constructor
  · intro r hr
    have within : Sorted.Ascending lo hi r.toList :=
      ⟨fun a ha => h.nonempty a ((run_sublist hr).subset ha), h.apart.sublist (run_sublist hr)⟩
    exact (within.nonempty _ r.first_mem).trans_le (Run.ascending_last within _ r.first_mem)
  · exact (runs_pairwise h.apart).imp (fun apart => apart _ (Run.last_mem _) _ (Run.first_mem _))

end Hull

end Runs
