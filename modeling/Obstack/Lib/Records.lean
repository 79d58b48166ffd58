import Mathlib.Data.List.Forall2

/-! Records of different sizes laid out one after the other, each with its size written in
it, and the loop that walks over them by adding the sizes up. -/
namespace Records

variable {α : Type} (size : List α → Nat)

/-- What the loop sees at each offset below the limit; none when it does not get there. -/
def walk (mem : List α) (limit : Nat) : Nat → Nat → Option (List (List α))
  | 0, offset => if offset < limit then none else some []
  | fuel + 1, offset =>
    if offset < limit then
      (walk mem limit fuel (offset + size (mem.drop offset))).map (fun views =>
        mem.drop offset :: views)
    else some []

/-- A record that is not empty and tells its size, whatever follows it. -/
structure Framed (r : List α) : Prop where
  nonempty : r ≠ []
  sized : ∀ rest, size (r ++ rest) = r.length

variable {size}

/-- The walk sees each record once and in order, and ends at the limit. -/
theorem walk_records {records : List (List α)} (framed : ∀ r ∈ records, Framed size r)
    (front rest : List α) (fuel : Nat) (enough : records.length ≤ fuel) :
    ∃ views, walk size (front ++ (records.flatten ++ rest)) (front.length + records.flatten.length)
        fuel front.length = some views ∧ List.Forall₂ (fun r v => r <+: v) records views := by
  induction records generalizing front fuel with
  | nil =>
    refine ⟨[], ?_, List.Forall₂.nil⟩
    cases fuel <;> simp [walk]
  | cons r records ih =>
    obtain ⟨fuel, rfl⟩ := Nat.exists_eq_add_of_lt (Nat.lt_of_lt_of_le (Nat.succ_pos _) enough)
    have first := framed r (by simp)
    have bytes : 0 < r.length := List.length_pos_iff.mpr first.nonempty
    obtain ⟨views, walked, seen⟩ := ih (fun r' hr' => framed r' (by simp [hr'])) (front ++ r) fuel
      (by simp only [List.length_cons] at enough; omega)
    refine ⟨(r ++ (records.flatten ++ rest)) :: views, ?_, List.Forall₂.cons (List.prefix_append _ _) seen⟩
    rw [List.length_append, List.append_assoc] at walked
    rw [List.flatten_cons, Nat.zero_add, walk, if_pos (by simp; omega), List.drop_left,
      List.append_assoc, first.sized, List.length_append, ← Nat.add_assoc, walked]
    rfl

theorem map_views {β : Type} {decode : List α → β} {records : List (List α)} {views : List (List α)}
    (seen : List.Forall₂ (fun r v => r <+: v) records views)
    (stable : ∀ r ∈ records, ∀ rest, decode (r ++ rest) = decode r) :
    views.map decode = records.map decode := by
  induction seen with
  | nil => rfl
  | @cons r v records views first _ ih =>
    obtain ⟨rest, rfl⟩ := first
    rw [List.map_cons, List.map_cons, stable r (by simp) rest,
      ih (fun r' hr' => stable r' (by simp [hr']))]

theorem length_le_bytes {records : List (List α)} (framed : ∀ r ∈ records, Framed size r) :
    records.length ≤ records.flatten.length := by
  induction records with
  | nil => exact Nat.le_refl 0
  | cons r records ih =>
    have bytes : 0 < r.length := List.length_pos_iff.mpr (framed r (by simp)).nonempty
    have rest := ih (fun r' hr' => framed r' (by simp [hr']))
    rw [List.length_cons, List.flatten_cons, List.length_append]
    omega

/-! ## Records that end at a mark -/

section Marked

variable {β : Type} {mark : α}

/-- The first mark of a text. -/
theorem append_mark_inj {a a' b b' : List α} (plain : mark ∉ a) (plain' : mark ∉ a')
    (same : a ++ mark :: b = a' ++ mark :: b') : a = a' ∧ b = b' := by
  induction a generalizing a' with
  | nil =>
    cases a' with
    | nil => exact ⟨rfl, (List.cons.inj same).2⟩
    | cons x a' =>
      obtain ⟨rfl, _⟩ := List.cons.inj same
      exact absurd List.mem_cons_self plain'
  | cons x a ih =>
    cases a' with
    | nil =>
      obtain ⟨rfl, _⟩ := List.cons.inj same
      exact absurd List.mem_cons_self plain
    | cons x' a' =>
      obtain ⟨rfl, rest⟩ := List.cons.inj same
      obtain ⟨rfl, tails⟩ := ih (fun member => plain (List.mem_cons_of_mem x member))
        (fun member => plain' (List.mem_cons_of_mem x member)) rest
      exact ⟨rfl, tails⟩

/-- The last mark of a text. -/
theorem append_last_mark_inj {a a' b b' : List α} (plain : mark ∉ b) (plain' : mark ∉ b')
    (same : a ++ mark :: b = a' ++ mark :: b') : a = a' ∧ b = b' := by
  have mirrored := congrArg List.reverse same
  simp only [List.reverse_append, List.reverse_cons, List.append_assoc,
    List.singleton_append] at mirrored
  obtain ⟨backs, fronts⟩ := append_mark_inj (by simpa using plain) (by simpa using plain') mirrored
  exact ⟨List.reverse_injective fronts, List.reverse_injective backs⟩

/-- Texts of records that each end at a mark, with the same behind it. -/
theorem flatMap_marked_inj {body body' : β → List α} {tail : List α} {bs bs' : List β}
    (plain : ∀ b ∈ bs, mark ∉ body b) (plain' : ∀ b ∈ bs', mark ∉ body' b)
    (same : bs.flatMap (fun b => body b ++ mark :: tail) =
      bs'.flatMap (fun b => body' b ++ mark :: tail)) : bs.map body = bs'.map body' := by
  induction bs generalizing bs' with
  | nil =>
    cases bs' with
    | nil => rfl
    | cons b bs' => simp at same
  | cons b bs ih =>
    cases bs' with
    | nil => simp at same
    | cons b' bs' =>
      simp only [List.flatMap_cons, List.append_assoc, List.cons_append] at same
      obtain ⟨first, behind⟩ := append_mark_inj (plain b List.mem_cons_self)
        (plain' b' List.mem_cons_self) same
      have rest := ih (fun x member => plain x (List.mem_cons_of_mem b member))
        (fun x member => plain' x (List.mem_cons_of_mem b' member)) (List.append_cancel_left behind)
      rw [List.map_cons, List.map_cons, first, rest]

/-- The same where the mark comes first. -/
theorem flatMap_leading_inj {body body' : β → List α} {front : List α} {bs bs' : List β}
    (clear : mark ∉ front) (plain : ∀ b ∈ bs, mark ∉ body b) (plain' : ∀ b ∈ bs', mark ∉ body' b)
    (same : bs.flatMap (fun b => front ++ mark :: body b) =
      bs'.flatMap (fun b => front ++ mark :: body' b)) : bs.map body = bs'.map body' := by
  have turn : ∀ (body : β → List α) (bs : List β),
      bs.flatMap (fun b => front ++ mark :: body b) ++ (front ++ [mark]) =
        front ++ mark :: bs.flatMap (fun b => (body b ++ front) ++ mark :: []) := by
    intro body bs
    induction bs with
    | nil => simp
    | cons b bs ih =>
      rw [List.flatMap_cons, List.append_assoc, ih]
      simp
  have turned := congrArg (· ++ (front ++ [mark])) same
  simp only [turn] at turned
  obtain ⟨_, marked⟩ := List.cons.inj (List.append_cancel_left turned)
  have bodies := flatMap_marked_inj
    (fun b member => by simpa using ⟨plain b member, clear⟩)
    (fun b member => by simpa using ⟨plain' b member, clear⟩) marked
  have cut := congrArg (List.map (fun text => text.take (text.length - front.length))) bodies
  simpa [Function.comp_def] using cut

end Marked

end Records
