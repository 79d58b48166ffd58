import Mathlib.Data.List.Basic
import Mathlib.Data.List.Nodup
import Mathlib.Data.List.Induction
import Mathlib.Data.Finset.Card

/-! Association lists with the operations of std::unordered_map that leave the order of
iteration open: a lookup, an insertion that keeps what is there, an update in place. -/
namespace Assoc

variable {κ ν : Type} [DecidableEq κ]

def find (k : κ) (m : List (κ × ν)) : Option ν := (m.find? (fun e => e.1 = k)).map Prod.snd

/-- unordered_map::insert does nothing when the key is present. -/
def insert (k : κ) (v : ν) (m : List (κ × ν)) : List (κ × ν) :=
  match find k m with
  | some _ => m
  | none => m ++ [(k, v)]

/-- Find or insert a fresh value, then change it through the iterator. -/
def upsert (k : κ) (fresh : ν) (change : ν → ν) (m : List (κ × ν)) : List (κ × ν) :=
  match find k m with
  | some _ => m.map (fun e => if e.1 = k then (e.1, change e.2) else e)
  | none => m ++ [(k, change fresh)]

/-- The order in which a map is iterated: some permutation of its entries. -/
structure IterOrder (α : Type) where
  run : List α → List α
  perm : ∀ xs, (run xs).Perm xs

def IterOrder.asStored (α : Type) : IterOrder α := ⟨id, fun xs => List.Perm.refl xs⟩

theorem find_eq_none {k : κ} {m : List (κ × ν)} : find k m = none ↔ k ∉ m.map Prod.fst := by
  simp only [find, Option.map_eq_none_iff, List.find?_eq_none, List.mem_map, not_exists, not_and,
    decide_eq_true_eq]

theorem find_mem {k : κ} {v : ν} {m : List (κ × ν)} (found : find k m = some v) : (k, v) ∈ m := by
  obtain ⟨e, he, rfl⟩ := Option.map_eq_some_iff.mp found
  have key : e.1 = k := by simpa using List.find?_some he
  rw [← key]
  exact List.mem_of_find?_eq_some he

theorem insert_absent {k : κ} (v : ν) {m : List (κ × ν)} (absent : k ∉ m.map Prod.fst) :
    insert k v m = m ++ [(k, v)] := by
  rw [insert, find_eq_none.mpr absent]

theorem insert_present {k : κ} (v : ν) {m : List (κ × ν)} (present : k ∈ m.map Prod.fst) :
    insert k v m = m := by
  cases found : find k m with
  | none => exact absurd present (find_eq_none.mp found)
  | some w => rw [insert, found]

theorem mem_insert {k : κ} {v : ν} {m : List (κ × ν)} {e : κ × ν} (member : e ∈ insert k v m) :
    e = (k, v) ∨ e ∈ m := by
  unfold insert at member
  split at member
  · exact Or.inr member
  · rcases List.mem_append.mp member with old | new
    · exact Or.inr old
    · exact Or.inl (List.mem_singleton.mp new)

theorem mem_insert_keys {k k' : κ} {v : ν} {m : List (κ × ν)} :
    k' ∈ (insert k v m).map Prod.fst ↔ k' = k ∨ k' ∈ m.map Prod.fst := by
  by_cases present : k ∈ m.map Prod.fst
  · rw [insert_present v present]
    constructor
    · exact Or.inr
    · rintro (rfl | old)
      · exact present
      · exact old
  · rw [insert_absent v present, List.map_append, List.mem_append]
    simp [or_comm]

theorem nodup_insert {k : κ} {v : ν} {m : List (κ × ν)} (nodup : (m.map Prod.fst).Nodup) :
    ((insert k v m).map Prod.fst).Nodup := by
  by_cases present : k ∈ m.map Prod.fst
  · rw [insert_present v present]
    exact nodup
  · rw [insert_absent v present, List.map_append]
    apply nodup.append (by simp)
    simpa using present

theorem find_unique {k : κ} {v : ν} {m : List (κ × ν)} (nodup : (m.map Prod.fst).Nodup)
    (member : (k, v) ∈ m) : find k m = some v := by
  cases found : find k m with
  | none => exact absurd (List.mem_map_of_mem member) (find_eq_none.mp found)
  | some w =>
    have same : (k, v) = (k, w) := List.inj_on_of_nodup_map nodup member (find_mem found) rfl
    rw [(Prod.mk.inj same).2]

theorem find_insert_new {k : κ} (v : ν) {m : List (κ × ν)} (absent : find k m = none) :
    find k (insert k v m) = some v := by
  rw [insert_absent v (find_eq_none.mp absent)]
  unfold find at absent ⊢
  rw [Option.map_eq_none_iff] at absent
  simp [List.find?_append, absent]

theorem find_insert_kept {k k' : κ} (v : ν) {w : ν} {m : List (κ × ν)} (found : find k m = some w) :
    find k (insert k' v m) = some w := by
  cases present : find k' m with
  | some _ => rwa [insert, present]
  | none =>
    rw [insert_absent v (find_eq_none.mp present)]
    obtain ⟨e, first, rfl⟩ := Option.map_eq_some_iff.mp found
    simp [find, List.find?_append, first]

/-! A set of keys collected by insertion. -/

theorem mem_insertAll_keys (v : ν) (ks : List κ) (m : List (κ × ν)) {k : κ} :
    k ∈ (ks.foldl (fun m k => insert k v m) m).map Prod.fst ↔ k ∈ ks ∨ k ∈ m.map Prod.fst := by
  induction ks generalizing m with
  | nil => simp
  | cons k' ks ih => rw [List.foldl_cons, ih, mem_insert_keys, List.mem_cons, or_assoc, or_left_comm]

theorem nodup_insertAll (v : ν) (ks : List κ) (m : List (κ × ν)) (nodup : (m.map Prod.fst).Nodup) :
    ((ks.foldl (fun m k => insert k v m) m).map Prod.fst).Nodup := by
  induction ks generalizing m with
  | nil => exact nodup
  | cons k ks ih => exact ih _ (nodup_insert nodup)

theorem upsert_present {k : κ} (fresh : ν) (change : ν → ν) {m : List (κ × ν)}
    (present : k ∈ m.map Prod.fst) :
    upsert k fresh change m = m.map (fun e => if e.1 = k then (e.1, change e.2) else e) := by
  cases found : find k m with
  | none => exact absurd present (find_eq_none.mp found)
  | some w => rw [upsert, found]

theorem upsert_absent {k : κ} (fresh : ν) (change : ν → ν) {m : List (κ × ν)}
    (absent : k ∉ m.map Prod.fst) : upsert k fresh change m = m ++ [(k, change fresh)] := by
  rw [upsert, find_eq_none.mpr absent]

/-! ## Grouping by insertion -/

section Group

variable {α : Type} (key : α → κ) (fresh : α → ν) (push : α → ν → ν)

/-- The find-insert-update loop that distributes a list over a map. -/
def groupFold (xs : List α) : List (κ × ν) :=
  xs.foldl (fun m x => upsert (key x) (fresh x) (push x) m) []

def groupKeys (xs : List α) : List κ := (xs.map key).eraseDups

variable {key fresh push}

@[simp]
theorem mem_groupKeys {xs : List α} {k : κ} : k ∈ groupKeys key xs ↔ ∃ x ∈ xs, key x = k := by
  rw [groupKeys, List.mem_eraseDups, List.mem_map]

theorem groupKeys_append (xs : List α) (x : α) :
    groupKeys key (xs ++ [x]) =
      if ∃ y ∈ xs, key y = key x then groupKeys key xs else groupKeys key xs ++ [key x] := by
  have known : key x ∈ xs.map key ↔ ∃ y ∈ xs, key y = key x := List.mem_map
  rw [groupKeys, List.map_append, List.eraseDups_append]
  split
  · rename_i old
    have nothing : [key x].removeAll (xs.map key) = [] := by
      simpa [List.removeAll] using known.mpr old
    rw [List.map_singleton, nothing, List.eraseDups_nil, List.append_nil, groupKeys]
  · rename_i new
    have itself : [key x].removeAll (xs.map key) = [key x] := by
      simpa [List.removeAll] using fun y hy => fun same => new ⟨y, hy, same⟩
    rw [List.map_singleton, itself]
    rfl

theorem nodup_groupKeys (xs : List α) : (groupKeys key xs).Nodup := by
  induction xs using List.reverseRecOn with
  | nil => exact List.nodup_nil
  | append_singleton xs x ih =>
    rw [groupKeys_append]
    split
    · exact ih
    · rename_i new
      exact ih.append (by simp) (by simpa using new)

section Derived

variable {κ' : Type} [DecidableEq κ'] {f : κ → κ'} {xs : List α}

theorem groupKeys_derived
    (inj : ∀ x ∈ xs, ∀ y ∈ xs, f (key x) = f (key y) → key x = key y) :
    groupKeys (fun x => f (key x)) xs = (groupKeys key xs).map f := by
  induction xs using List.reverseRecOn with
  | nil => rfl
  | append_singleton xs x ih =>
    have known : (∃ y ∈ xs, f (key y) = f (key x)) ↔ ∃ y ∈ xs, key y = key x := by
      constructor
      · rintro ⟨y, hy, same⟩
        exact ⟨y, hy, inj y (by simp [hy]) x (by simp) same⟩
      · rintro ⟨y, hy, same⟩
        exact ⟨y, hy, congrArg f same⟩
    rw [groupKeys_append, groupKeys_append,
      ih (fun y hy z hz => inj y (by simp [hy]) z (by simp [hz]))]
    by_cases old : ∃ y ∈ xs, key y = key x
    · rw [if_pos old, if_pos (known.mpr old)]
    · rw [if_neg old, if_neg (fun h => old (known.mp h)), List.map_append, List.map_singleton]

theorem groupKeys_derived_injective
    (same : (groupKeys (fun x => f (key x)) xs).length = (groupKeys key xs).length) :
    ∀ x ∈ xs, ∀ y ∈ xs, f (key x) = f (key y) → key x = key y := by
  have image : (groupKeys (fun x => f (key x)) xs).toFinset = (groupKeys key xs).toFinset.image f := by
    ext k
    simp only [List.mem_toFinset, mem_groupKeys, Finset.mem_image]
    constructor
    · rintro ⟨x, hx, rfl⟩
      exact ⟨key x, ⟨x, hx, rfl⟩, rfl⟩
    · rintro ⟨_, ⟨x, hx, rfl⟩, rfl⟩
      exact ⟨x, hx, rfl⟩
  have cards : ((groupKeys key xs).toFinset.image f).card = (groupKeys key xs).toFinset.card := by
    rw [← image, List.toFinset_card_of_nodup (nodup_groupKeys xs),
      List.toFinset_card_of_nodup (nodup_groupKeys xs), same]
  have injective := Finset.card_image_iff.mp cards
  intro x hx y hy equal
  refine injective ?_ ?_ equal
  · simpa using ⟨x, hx, rfl⟩
  · simpa using ⟨y, hy, rfl⟩

end Derived

/-- One entry for each key, holding what the elements of that key, in order, were collected
into. -/
theorem groupFold_eq (collect : List α → ν) (single : ∀ x, push x (fresh x) = collect [x])
    (more : ∀ l x, l ≠ [] → push x (collect l) = collect (l ++ [x])) (xs : List α) :
    groupFold key fresh push xs =
      (groupKeys key xs).map (fun k => (k, collect (xs.filter (fun x => key x = k)))) := by
  induction xs using List.reverseRecOn with
  | nil => rfl
  | append_singleton xs x ih =>
    rw [groupFold, List.foldl_append, List.foldl_cons, List.foldl_nil]
    change upsert _ _ _ (groupFold key fresh push xs) = _
    have keys : ((groupKeys key xs).map
        (fun k => (k, collect (xs.filter (fun x => key x = k))))).map Prod.fst =
          groupKeys key xs := by
      simp [List.map_map, Function.comp_def]
    rw [ih, groupKeys_append]
    by_cases old : ∃ y ∈ xs, key y = key x
    · rw [if_pos old, upsert_present _ _ (by rw [keys]; exact mem_groupKeys.mpr old), List.map_map]
      apply List.map_congr_left
      intro k hk
      by_cases same : key x = k
      · obtain ⟨y, hy, eq⟩ := mem_groupKeys.mp hk
        have some : xs.filter (fun x => key x = k) ≠ [] :=
          List.ne_nil_of_mem (List.mem_filter.mpr ⟨hy, decide_eq_true eq⟩)
        simp [List.filter_append, same, more _ x some]
      · simp [List.filter_append, same, Ne.symm same]
    · have first : xs.filter (fun y => key y = key x) = [] := by
        rw [List.filter_eq_nil_iff]
        intro y hy same
        exact old ⟨y, hy, of_decide_eq_true same⟩
      rw [if_neg old, upsert_absent _ _ (by rw [keys]; exact fun h => old (mem_groupKeys.mp h)),
        List.map_append]
      congr 1
      · apply List.map_congr_left
        intro k hk
        have differ : key x ≠ k := fun same => old (same ▸ mem_groupKeys.mp hk)
        simp [List.filter_append, differ]
      · simp [List.filter_append, first, single]

theorem groups_perm (ks : List κ) (nodup : ks.Nodup) (xs : List α) (all : ∀ x ∈ xs, key x ∈ ks) :
    (ks.flatMap (fun k => xs.filter (fun x => key x = k))).Perm xs := by
  induction ks generalizing xs with
  | nil =>
    have empty : xs = [] := List.eq_nil_iff_forall_not_mem.mpr fun x hx => by simpa using all x hx
    simp [empty]
  | cons k ks ih =>
    obtain ⟨fresh, nodup⟩ := List.nodup_cons.mp nodup
    have others : ks.flatMap (fun k' => xs.filter (fun x => key x = k')) =
        ks.flatMap (fun k' => (xs.filter (fun x => !decide (key x = k))).filter
          (fun x => key x = k')) := by
      apply List.flatMap_congr
      intro k' hk'
      rw [List.filter_filter]
      apply List.filter_congr
      intro x _
      have differ : k' ≠ k := fun same => fresh (same ▸ hk')
      by_cases here : key x = k' <;> simp [here, differ]
    have rest := ih nodup (xs.filter (fun x => !decide (key x = k))) (by
      intro x hx
      obtain ⟨hx, differ⟩ := List.mem_filter.mp hx
      have differ : key x ≠ k := by simpa using differ
      exact (List.mem_cons.mp (all x hx)).resolve_left differ)
    rw [List.flatMap_cons, others]
    exact (rest.append_left _).trans (List.filter_append_perm _ xs)

end Group

end Assoc
