import Obstack.Lib.Text

/-! Text rendered into memory piece by piece, as with snprintf at an advancing position. What
a reader sees afterwards is the text cut to one less than the capacity, also where the pieces
after the cut were written behind it. -/
namespace CText

def nul : Char := '\x00'

/-- Memory with s stored from position pos on. -/
def poke (mem : Str) (pos : Nat) (s : Str) : Str := mem.take pos ++ (s ++ mem.drop (pos + s.length))

/-- The string a char pointer to the start of mem denotes. -/
def cString (mem : Str) : Str := mem.takeWhile (fun c => c ≠ nul)

/-- New memory and the length of the whole text. -/
def snprintf (mem : Str) (pos size : Nat) (text : Str) : Str × Nat :=
  if size = 0 then (mem, text.length)
  else (poke mem pos (text.take (size - 1) ++ [nul]), text.length)

@[simp]
theorem snprintf_wanted (mem : Str) (pos size : Nat) (text : Str) :
    (snprintf mem pos size text).2 = text.length := by
  unfold snprintf
  split <;> rfl

theorem poke_one {mem : Str} {pos : Nat} (inside : pos < mem.length) (c : Char) :
    poke mem pos [c] = mem.set pos c := by
  rw [List.set_eq_take_append_cons_drop, if_pos inside]
  rfl

/-- One more terminator at or before the first leaves the string behind it empty. -/
theorem cString_terminated {mem : Str} {pos start : Nat} (here : mem[start]? = some nul)
    (order : pos ≤ start) : cString ((poke mem pos [nul]).drop start) = [] := by
  obtain ⟨inside, _⟩ := List.getElem?_eq_some_iff.mp here
  rw [poke_one (by omega)]
  have still : (mem.set pos nul)[start]? = some nul := by
    rw [List.getElem?_set]
    split
    · rw [if_pos (by omega)]
    · exact here
  obtain ⟨within, first⟩ := List.getElem?_eq_some_iff.mp still
  rw [List.drop_eq_getElem_cons within, first, cString, List.takeWhile_cons_of_neg (by simp)]

theorem poke_append (front rest s : Str) :
    poke (front ++ rest) front.length s = front ++ (s ++ rest.drop s.length) := by
  rw [poke, List.take_left, List.drop_append, List.drop_eq_nil_of_le (by omega)]
  simp

theorem poke_beyond {front : Str} (rest s : Str) {pos : Nat} (beyond : front.length ≤ pos) :
    poke (front ++ rest) pos s = front ++ poke rest (pos - front.length) s := by
  obtain ⟨k, rfl⟩ := Nat.exists_eq_add_of_le beyond
  rw [poke, poke, List.take_append, List.take_of_length_le (by omega), List.drop_append,
    List.drop_eq_nil_of_le (by omega), List.append_assoc]
  congr 3
  simp only [List.nil_append]
  congr 1
  omega

theorem cString_append {front : Str} (rest : Str) (plain : nul ∉ front) :
    cString (front ++ nul :: rest) = front := by
  rw [cString, List.takeWhile_append_of_pos]
  · simp
  · intro c hc
    simpa using fun same : c = nul => plain (same ▸ hc)

/-- The text is in memory, cut to fit the capacity and terminated. -/
def Holds (capacity : Nat) (mem text : Str) : Prop :=
  ∃ rest, mem = text.take (capacity - 1) ++ nul :: rest

theorem Holds.read {capacity : Nat} {mem text : Str} (holds : Holds capacity mem text)
    (plain : nul ∉ text) : cString mem = text.take (capacity - 1) := by
  obtain ⟨rest, rfl⟩ := holds
  exact cString_append rest (fun member => plain (List.mem_of_mem_take member))

theorem Holds.poke_cut {capacity pos : Nat} {mem text : Str} (holds : Holds capacity mem text)
    (positive : 0 < capacity) (beyond : capacity ≤ pos) (s more : Str)
    (cut : capacity ≤ text.length) : Holds capacity (poke mem pos s) (text ++ more) := by
  obtain ⟨rest, rfl⟩ := holds
  have front : text.take (capacity - 1) ++ nul :: rest =
      (text.take (capacity - 1) ++ [nul]) ++ rest := by simp
  have width : (text.take (capacity - 1) ++ [nul]).length = capacity := by
    simp only [List.length_append, List.length_take, List.length_singleton]
    omega
  rw [front, poke_beyond rest s (by omega), Holds]
  refine ⟨poke rest (pos - (text.take (capacity - 1) ++ [nul]).length) s, ?_⟩
  rw [List.take_append_of_le_length (by omega)]
  simp

theorem Holds.poke_end {capacity : Nat} {mem text : Str} (holds : Holds capacity mem text)
    (room : text.length < capacity) (more : Str) :
    Holds capacity (poke mem text.length (more.take (capacity - text.length - 1) ++ [nul]))
      (text ++ more) := by
  obtain ⟨rest, rfl⟩ := holds
  have whole : text.take (capacity - 1) = text := List.take_of_length_le (by omega)
  rw [whole, poke_append]
  refine ⟨(nul :: rest).drop (more.take (capacity - text.length - 1) ++ [nul]).length, ?_⟩
  have shift : capacity - text.length - 1 = capacity - 1 - text.length := by omega
  rw [List.take_append, whole, shift]
  simp

/-- One snprintf at the end of the text; the size is what is left of the capacity, and of no
account once nothing is left. -/
theorem Holds.snprintf {capacity size : Nat} {mem text : Str} (holds : Holds capacity mem text)
    (positive : 0 < capacity) (more : Str)
    (left : text.length < capacity → size = capacity - text.length) :
    Holds capacity (snprintf mem text.length size more).1 (text ++ more) := by
  by_cases room : text.length < capacity
  · obtain rfl := left room
    rw [CText.snprintf, if_neg (by omega)]
    exact holds.poke_end room more
  · have cut : capacity ≤ text.length := by omega
    unfold CText.snprintf
    split
    · obtain ⟨rest, rfl⟩ := holds
      exact ⟨rest, by rw [List.take_append_of_le_length (by omega)]⟩
    · exact holds.poke_cut positive cut _ more cut

theorem Holds.terminate {capacity : Nat} {mem text : Str} (holds : Holds capacity mem text)
    (positive : 0 < capacity) : Holds capacity (poke mem text.length [nul]) text := by
  by_cases room : text.length < capacity
  · simpa using holds.poke_end room []
  · simpa using holds.poke_cut positive (by omega) [nul] [] (by omega)

end CText
