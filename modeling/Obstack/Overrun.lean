import Mathlib.Algebra.GroupWithZero.Nat
import Mathlib.Data.Nat.Log
import Obstack.Render

/-! Where the rendering writes. The guard of the loop never fires, so that the position is
the length of the text so far, also past the end of bt_. -/
namespace Obstack
open CText

/-- The value of pos at each snprintf of the loop. -/
def renderPositions (mem : Str) (pos : Nat) : List ULong → List Nat
  | [] => []
  | addr :: addrs =>
    let s := snprintf mem pos (sizeArg pos) (piece addr addrs.isEmpty)
    pos :: if s.2 ≥ btLen then [] else renderPositions s.1 (pos + s.2) addrs

/-- Every position is inside bt_, the size passed on is what is left of it, and so is the
place of the terminator. -/
structure StaysInside (addrs : List ULong) : Prop where
  positions : ∀ pos ∈ renderPositions (List.replicate btRoom nul) 0 addrs,
    pos < btLen ∧ 0 < sizeArg pos ∧ sizeArg pos = btLen - pos
  terminator : (renderLoop (List.replicate btRoom nul) 0 addrs).2 < btLen

/-- Characters of one address with its 0x and the blank or terminator behind it. -/
def pieceWidth (addr : ULong) : Nat := Nat.log 16 addr.toNat + 4

theorem hex_length (n : Nat) : (hex n).length = Nat.log 16 n + 1 := by
  have atMost : (hex n).length ≤ Nat.log 16 n + 1 :=
    (Nat.length_toDigits_le_iff (by decide) (Nat.succ_pos _)).mpr
      (Nat.lt_pow_succ_log_self (by decide) n)
  have atLeast : ¬ (hex n).length ≤ Nat.log 16 n := by
    intro short
    cases digits : Nat.log 16 n with
    | zero =>
      rw [digits, Nat.le_zero, List.length_eq_zero_iff] at short
      exact Nat.toDigits_ne_nil short
    | succ k =>
      have small := (Nat.length_toDigits_le_iff (by decide) (by omega)).mp short
      have positive : n ≠ 0 := by
        rintro rfl
        simp at digits
      exact absurd small (Nat.not_lt.mpr (Nat.pow_log_le_self 16 positive))
  omega

theorem btText_width (addr : ULong) (addrs : List ULong) :
    (btText (addr :: addrs)).length + 1 = ((addr :: addrs).map pieceWidth).sum := by
  induction addrs generalizing addr with
  | nil => simp [btText, piece, hex_length, pieceWidth]
  | cons next addrs ih =>
    have rest := ih next
    rw [List.map_cons, List.sum_cons, ← rest, btText]
    simp [piece, hex_length, pieceWidth]
    omega

theorem renderPositions_step (mem : Str) (pos : Nat) (addr : ULong) (addrs : List ULong) :
    renderPositions mem pos (addr :: addrs) =
      pos :: renderPositions (snprintf mem pos (sizeArg pos) (piece addr addrs.isEmpty)).1
        (pos + (piece addr addrs.isEmpty).length) addrs := by
  have short := piece_length addr addrs.isEmpty
  rw [renderPositions, snprintf_wanted, if_neg]
  rw [btLen]
  omega

theorem renderLoop_pos (addrs : List ULong) (mem : Str) (pos : Nat) :
    (renderLoop mem pos addrs).2 = pos + (btText addrs).length := by
  induction addrs generalizing mem pos with
  | nil => rfl
  | cons addr addrs ih =>
    rw [renderLoop_step, ih, btText, List.length_append]
    omega

theorem renderPositions_le (addrs : List ULong) (mem : Str) (pos : Nat) :
    ∀ p ∈ renderPositions mem pos addrs, p ≤ pos + (btText addrs).length := by
  induction addrs generalizing mem pos with
  | nil => intro p hp; cases hp
  | cons addr addrs ih =>
    intro p hp
    rw [renderPositions_step] at hp
    rw [btText, List.length_append]
    cases hp with
    | head => omega
    | tail _ later =>
      have bound := ih _ _ p later
      omega

theorem staysInside_iff_length (addrs : List ULong) :
    StaysInside addrs ↔ (btText addrs).length < btLen := by
  have last := renderLoop_pos addrs (List.replicate btRoom nul) 0
  constructor
  · intro inside
    have ended := inside.terminator
    omega
  · intro short
    constructor
    · intro pos hpos
      have bound := renderPositions_le addrs _ _ pos hpos
      have room : pos < btLen := by omega
      rw [sizeArg_room room]
      exact ⟨room, by omega, rfl⟩
    · omega

/-- The loop stays inside bt_ exactly when all its pieces fit it. -/
theorem stays_inside_iff (addrs : List ULong) :
    StaysInside addrs ↔ (addrs.map pieceWidth).sum ≤ 2048 := by
  rw [staysInside_iff_length, btLen]
  cases addrs with
  | nil => simp [btText]
  | cons addr addrs =>
    have width := btText_width addr addrs
    omega

/-- A full stack of twelve-digit addresses. -/
def fullTask : Task where
  tid := 1
  tname := ['w']
  addrs := List.replicate 256 0x7f0000000000
  bounded := by rw [List.length_replicate]

theorem full_stack_overruns : fullTask.isValid = true ∧ ¬ StaysInside fullTask.addrs := by
  have frames : fullTask.addrs.length = 256 := List.length_replicate
  have width : pieceWidth 0x7f0000000000 = 15 := by
    have digits : (hex 0x7f0000000000).length = 12 := by decide
    rw [hex_length] at digits
    exact congrArg (· + 3) digits
  have whole : (btText fullTask.addrs).length + 1 = 256 * 15 := by
    have sum := btText_width 0x7f0000000000 (List.replicate 255 0x7f0000000000)
    rw [← List.replicate_succ, List.map_replicate, List.sum_replicate_nat, width] at sum
    exact sum
  refine ⟨by rw [Task.isValid, frames]; rfl, fun inside => ?_⟩
  rw [staysInside_iff_length, btLen] at inside
  omega

end Obstack
