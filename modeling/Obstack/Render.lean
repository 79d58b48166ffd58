import Obstack.Lib.Buffer
import Obstack.StackIt

/-! The parent's rendering of a captured stack into bt_, the key of aggregation, and the
hand-over of the tasks to ObStack. -/
namespace Obstack
open CText

/-- A captured task: addrs is the filled part of addrs_[256]. -/
structure Task where
  tid : Int
  tname : Str
  addrs : List ULong
  bounded : addrs.length ≤ 256 := by decide
  deriving DecidableEq

def Task.isValid (t : Task) : Bool := 0 < t.addrs.length

/-- ARRAYSIZE(t->bt_) -/
def btLen : Nat := 2048

/-- Bytes from bt_, at offset 2096 of the task, to the end of the two pages it is mapped on. -/
def btRoom : Nat := 6096

/-- "0x%lx%s", where the last address has no blank behind it. -/
def piece (addr : ULong) (last : Bool) : Str :=
  ['0', 'x'] ++ hex addr.toNat ++ if last then [] else [' ']

/-- buf_len - pos is an int and becomes a size_t. -/
def sizeArg (pos : Nat) : Nat := (BitVec.ofInt 64 ((btLen : Int) - pos)).toNat

/-- The loop over the addresses: memory and pos. A length is never negative, so the guard is
n >= buf_len alone, and pos advances by what snprintf wanted to write. -/
def renderLoop (mem : Str) (pos : Nat) : List ULong → Str × Nat
  | [] => (mem, pos)
  | addr :: addrs =>
    let s := snprintf mem pos (sizeArg pos) (piece addr addrs.isEmpty)
    if s.2 ≥ btLen then (s.1, pos) else renderLoop s.1 (pos + s.2) addrs

/-- string(t->bt_) after buf[pos] = 0, from the zeroed pages of a new task. -/
def renderBt (addrs : List ULong) : Str :=
  let s := renderLoop (List.replicate btRoom nul) 0 addrs
  cString (poke s.1 s.2 [nul])

/-- add_bt for every task that has addresses. -/
def ObStack.addTasks (os : ObStack) (tasks : List Task) : ObStack :=
  tasks.foldl (fun os t =>
    if t.isValid then os.addBt t.tid t.tname t.addrs (renderBt t.addrs) else os) os

/-! ## What is rendered -/

def btText : List ULong → Str
  | [] => []
  | addr :: addrs => piece addr addrs.isEmpty ++ btText addrs

theorem hex_word (addr : ULong) : (hex addr.toNat).length ≤ 16 :=
  hex_length_le (by decide) addr.isLt

theorem piece_length (addr : ULong) (last : Bool) : (piece addr last).length ≤ 19 := by
  have word := hex_word addr
  cases last <;> simp [piece] <;> omega

theorem hex_solid {n : Nat} {c : Char} (other : isDigitOf 16 c = false) : c ∉ hex n := by
  intro member
  have digit : isDigitOf 16 c = true := toDigits_isDigit (by decide) (by decide) n c member
  rw [other] at digit
  contradiction

theorem nul_not_mem_btText (addrs : List ULong) : nul ∉ btText addrs := by
  induction addrs with
  | nil => simp [btText]
  | cons addr addrs ih =>
    have digits : nul ∉ hex addr.toNat := hex_solid (by decide)
    cases last : addrs.isEmpty <;> simp [btText, piece, last, digits, ih] <;> decide

theorem sizeArg_room {pos : Nat} (room : pos < btLen) : sizeArg pos = btLen - pos := by
  simp only [sizeArg, btLen, BitVec.toNat_ofInt] at *
  omega

/-- The guard does not fire. -/
theorem renderLoop_step (mem : Str) (pos : Nat) (addr : ULong) (addrs : List ULong) :
    renderLoop mem pos (addr :: addrs) =
      renderLoop (snprintf mem pos (sizeArg pos) (piece addr addrs.isEmpty)).1
        (pos + (piece addr addrs.isEmpty).length) addrs := by
  have short := piece_length addr addrs.isEmpty
  rw [renderLoop, snprintf_wanted, if_neg]
  rw [btLen]
  omega

/-- The loop leaves its text in memory, cut to the array, and pos behind the whole text. -/
theorem renderLoop_holds (addrs : List ULong) {mem text : Str} (holds : Holds btLen mem text) :
    Holds btLen (renderLoop mem text.length addrs).1 (text ++ btText addrs) ∧
      (renderLoop mem text.length addrs).2 = (text ++ btText addrs).length := by
  induction addrs generalizing mem text with
  | nil => simpa [renderLoop, btText] using holds
  | cons addr addrs ih =>
    have next := holds.snprintf (by decide) (piece addr addrs.isEmpty) sizeArg_room
    have rest := ih next
    rw [List.length_append, List.append_assoc] at rest
    rw [renderLoop_step]
    exact rest

/-- The key of a stack is its rendering, cut to 2047 characters. -/
theorem renderBt_eq (addrs : List ULong) : renderBt addrs = (btText addrs).take 2047 := by
  have start : Holds btLen (List.replicate btRoom nul) [] :=
    ⟨List.replicate (btRoom - 1) nul, rfl⟩
  obtain ⟨holds, pos⟩ := renderLoop_holds addrs start
  rw [List.nil_append] at holds pos
  have done := holds.terminate (by decide)
  rw [renderBt]
  change cString (poke _ (renderLoop (List.replicate btRoom nul) ([] : Str).length addrs).2 _) = _
  rw [pos]
  exact done.read (nul_not_mem_btText addrs)

/-! ## The whole rendering determines the stack -/

def hexWord (addr : ULong) : Str := ['0', 'x'] ++ hex addr.toNat

theorem btText_eq (addrs : List ULong) : btText addrs = [' '].intercalate (addrs.map hexWord) := by
  induction addrs with
  | nil => rfl
  | cons addr addrs ih =>
    cases addrs with
    | nil => simp [btText, piece, hexWord]
    | cons next addrs =>
      rw [btText, ih]
      simp only [List.map_cons, List.intercalate_cons_cons]
      simp [piece, hexWord]

theorem btText_injective {as bs : List ULong} (same : btText as = btText bs) : as = bs := by
  have words (addrs : List ULong) : ∀ w ∈ addrs.map hexWord, ' ' ∉ w := by
    intro w hw
    obtain ⟨addr, _, rfl⟩ := List.mem_map.mp hw
    have digits : ' ' ∉ hex addr.toNat := hex_solid (by decide)
    simp [hexWord, digits]
  have nonempty (addr : ULong) (addrs : List ULong) : btText (addr :: addrs) ≠ [] := by
    simp [btText, piece]
  have split (addr : ULong) (addrs : List ULong) :
      (btText (addr :: addrs)).splitOn ' ' = (addr :: addrs).map hexWord := by
    rw [btText_eq, List.splitOn_intercalate _ (words _) (by simp)]
  cases as with
  | nil =>
    cases bs with
    | nil => rfl
    | cons b bs => exact absurd same.symm (nonempty b bs)
  | cons a as =>
    cases bs with
    | nil => exact absurd same (nonempty a as)
    | cons b bs =>
      have pieces : (a :: as).map hexWord = (b :: bs).map hexWord := by
        rw [← split, ← split, same]
      refine (List.map_injective_iff.mpr ?_) pieces
      intro a b equal
      exact BitVec.eq_of_toNat_eq (hex_injective (List.append_cancel_left equal))

end Obstack
