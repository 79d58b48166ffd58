import Mathlib.Data.List.Induction
import Obstack.Lib.Loops

/-! The child falls in shadow: it reverses each string of argv where it lies. The swap in
inplace_reverse is three exclusive ors, which would clear a byte swapped with itself, and
argv may have been permuted before. -/
namespace Obstack
open Loops

abbrev Byte := BitVec 8

/-- The length of the string at the start of mem; none where it has no end. -/
def byteLength : List Byte → Option Nat
  | [] => none
  | c :: mem => if c = 0 then some 0 else (byteLength mem).map (· + 1)

/-- mem[a] ^= mem[b] -/
def xorAssign (mem : List Byte) (a b : Nat) : Option (List Byte) := do
  let x ← mem[a]?
  let y ← mem[b]?
  return mem.set a (x ^^^ y)

/-- XOR_SWAP -/
def xorSwap (mem : List Byte) (a b : Nat) : Option (List Byte) := do
  let mem ← xorAssign mem a b
  let mem ← xorAssign mem b a
  xorAssign mem a b

/-- The loop of inplace_reverse. -/
def reverseLoop : Nat → List Byte → Nat → Nat → Option (List Byte)
  | 0, mem, str, end_ => if str < end_ then none else some mem
  | fuel + 1, mem, str, end_ =>
    if str < end_ then
      (xorSwap mem str end_).bind fun mem => reverseLoop fuel mem (str + 1) (end_ - 1)
    else some mem

/-- A null pointer is none; the result is none where a byte is touched that is not there. -/
def inplaceReverse (mem : List Byte) : Option Nat → Option (List Byte)
  | none => some mem
  | some str => (byteLength (mem.drop str)).bind fun len => reverseLoop len mem str (str + len - 1)

/-- The loop over argv. -/
def fallInShadow (mem : List Byte) (argv : List Nat) : Option (List Byte) :=
  argv.foldlM (fun mem str => inplaceReverse mem (some str)) mem

/-! ## One string -/

theorem getElem?_middle {α : Type} (before : List α) (x : α) (after : List α) {i : Nat}
    (here : i = before.length) : (before ++ x :: after)[i]? = some x := by
  rw [here, List.getElem?_append_right (Nat.le_refl _), Nat.sub_self]
  rfl

theorem set_middle {α : Type} (before : List α) (x y : α) (after : List α) {i : Nat}
    (here : i = before.length) : (before ++ x :: after).set i y = before ++ y :: after := by
  rw [here, List.set_append_right _ _ (Nat.le_refl _), Nat.sub_self]
  rfl

/-- Two different bytes change places. -/
theorem xorSwap_apart (before middle after : List Byte) (x y : Byte) {a b : Nat}
    (first : a = before.length) (second : b = before.length + (middle.length + 1)) :
    xorSwap (before ++ x :: (middle ++ y :: after)) a b =
      some (before ++ y :: (middle ++ x :: after)) := by
  have regroup (u v : Byte) : before ++ u :: (middle ++ v :: after) =
      (before ++ u :: middle) ++ v :: after := by simp
  have there (u : Byte) : b = (before ++ u :: middle).length := by simp [second]
  have at_ (u v : Byte) : (before ++ u :: (middle ++ v :: after))[a]? = some u :=
    getElem?_middle before u _ first
  have atEnd (u v : Byte) : (before ++ u :: (middle ++ v :: after))[b]? = some v := by
    rw [regroup]
    exact getElem?_middle _ v after (there u)
  have put (u v w : Byte) : (before ++ u :: (middle ++ v :: after)).set a w =
      before ++ w :: (middle ++ v :: after) := set_middle before u w _ first
  have putEnd (u v w : Byte) : (before ++ u :: (middle ++ v :: after)).set b w =
      before ++ u :: (middle ++ w :: after) := by
    rw [regroup, regroup]
    exact set_middle _ v w after (there u)
  have right : y ^^^ (x ^^^ y) = x := by
    rw [BitVec.xor_comm x y, ← BitVec.xor_assoc, BitVec.xor_self, BitVec.zero_xor]
  have left : x ^^^ y ^^^ x = y := by
    rw [BitVec.xor_comm x y, BitVec.xor_assoc, BitVec.xor_self, BitVec.xor_zero]
  simp only [xorSwap, xorAssign, at_, atEnd, put, putEnd, right, left, Option.bind_eq_bind,
    Option.bind_some, Option.pure_def]

/-- The loop works inwards from both ends; an odd byte in the middle is left alone. -/
theorem reverseLoop_text (fuel : Nat) (before text after : List Byte)
    (enough : text.length ≤ fuel) :
    reverseLoop fuel (before ++ (text ++ after)) before.length (before.length + text.length - 1) =
      some (before ++ (text.reverse ++ after)) := by
  induction fuel generalizing before text after with
  | zero =>
    obtain rfl : text = [] := List.eq_nil_of_length_eq_zero (by omega)
    have ends : ¬ before.length < before.length + 0 - 1 := by omega
    rw [reverseLoop, List.length_nil, if_neg ends]
    rfl
  | succ fuel ih =>
    match text with
    | [] =>
      have ends : ¬ before.length < before.length + 0 - 1 := by omega
      rw [reverseLoop, List.length_nil, if_neg ends]
      rfl
    | x :: rest =>
      cases rest using List.reverseRecOn with
      | nil =>
        have ends : ¬ before.length < before.length + 1 - 1 := by omega
        rw [reverseLoop, List.length_singleton, if_neg ends]
        rfl
      | append_singleton middle y _ =>
        have length : (x :: (middle ++ [y])).length = middle.length + 2 := by simp
        have swapped := xorSwap_apart before middle after x y rfl
          (b := before.length + (middle.length + 2) - 1) (by omega)
        have rest := ih (before ++ [y]) middle (x :: after) (by omega)
        have str : (before ++ [y]).length = before.length + 1 := by simp
        have end_ : before.length + 1 + middle.length - 1 =
            before.length + (middle.length + 2) - 1 - 1 := by omega
        have memory : before ++ y :: (middle ++ x :: after) =
            before ++ [y] ++ (middle ++ x :: after) := by simp
        rw [str, end_, ← memory] at rest
        have inside : before.length < before.length + (middle.length + 2) - 1 := by omega
        rw [length, reverseLoop, if_pos inside, List.cons_append, List.append_assoc,
          List.singleton_append, swapped, Option.bind_some, rest]
        simp

theorem byteLength_text {text : List Byte} (plain : 0 ∉ text) (after : List Byte) :
    byteLength (text ++ 0 :: after) = some text.length := by
  induction text with
  | nil => rfl
  | cons c text ih =>
    rw [List.mem_cons, not_or] at plain
    rw [List.cons_append, byteLength, if_neg (Ne.symm plain.1), ih plain.2]
    rfl

theorem inplaceReverse_text (before after : List Byte) {text : List Byte} (plain : 0 ∉ text) :
    inplaceReverse (before ++ (text ++ 0 :: after)) (some before.length) =
      some (before ++ (text.reverse ++ 0 :: after)) := by
  rw [inplaceReverse, List.drop_left, byteLength_text plain, Option.bind_some]
  exact reverseLoop_text text.length before text (0 :: after) (Nat.le_refl _)

/-! ## All of argv -/

/-- The strings that the kernel lays out, each with its terminator. -/
def argvArea (args : List (List Byte)) : List Byte := args.flatMap (fun arg => arg ++ [0])

/-- Where the k-th of them is. -/
def argvAt (base : Nat) (args : List (List Byte)) (k : Nat) : Nat :=
  base + (argvArea (args.take k)).length

theorem argvAt_lengths (base : Nat) {args args' : List (List Byte)}
    (same : args'.map List.length = args.map List.length) (k : Nat) :
    argvAt base args' k = argvAt base args k := by
  have lengths (args : List (List Byte)) :
      (argvArea (args.take k)).length = (((args.map List.length).take k).map (· + 1)).sum := by
    rw [argvArea, List.length_flatMap, ← List.map_take, List.map_map]
    congr 1
    apply List.map_congr_left
    intro arg _
    simp
  rw [argvAt, argvAt, lengths, lengths, same]

theorem modify_reverse_lengths (args : List (List Byte)) (k : Nat) :
    (args.modify k List.reverse).map List.length = args.map List.length := by
  apply List.ext_getElem?
  intro i
  rw [List.getElem?_map, List.getElem?_map, List.getElem?_modify]
  cases args[i]? with
  | none => rfl
  | some arg => by_cases here : k = i <;> simp [here]

theorem inplaceReverse_argv (below above : List Byte) {args : List (List Byte)}
    (plain : ∀ arg ∈ args, 0 ∉ arg) {k : Nat} (inside : k < args.length) :
    inplaceReverse (below ++ (argvArea args ++ above)) (some (argvAt below.length args k)) =
      some (below ++ (argvArea (args.modify k List.reverse) ++ above)) := by
  have split : args = args.take k ++ args[k] :: args.drop (k + 1) := by
    rw [← List.drop_eq_getElem_cons inside, List.take_append_drop]
  have memory (arg : List Byte) :
      below ++ (argvArea (args.take k ++ arg :: args.drop (k + 1)) ++ above) =
        below ++ argvArea (args.take k) ++
          (arg ++ 0 :: (argvArea (args.drop (k + 1)) ++ above)) := by
    simp [argvArea]
  have place : argvAt below.length args k = (below ++ argvArea (args.take k)).length := by
    rw [argvAt, List.length_append]
  have reversed := inplaceReverse_text (below ++ argvArea (args.take k))
    (argvArea (args.drop (k + 1)) ++ above) (plain args[k] (List.getElem_mem inside))
  rw [List.modify_eq_take_cons_drop inside, memory, ← reversed, ← memory, ← split, place]

theorem modify_reverse_plain {args : List (List Byte)} (plain : ∀ arg ∈ args, 0 ∉ arg) (k : Nat) :
    ∀ arg ∈ args.modify k List.reverse, 0 ∉ arg := by
  intro arg member
  obtain ⟨i, here⟩ := List.mem_iff_getElem?.mp member
  rw [List.getElem?_modify] at here
  obtain ⟨old, there, same⟩ := Option.map_eq_some_iff.mp here
  have solid := plain old (List.mem_of_getElem? there)
  by_cases turned : k = i
  · rw [if_pos turned] at same
    rw [← same, List.mem_reverse]
    exact solid
  · rw [if_neg turned] at same
    exact same ▸ solid

theorem fallInShadow_run (below above : List Byte) (args : List (List Byte)) {order : List Nat}
    (known : ∀ k ∈ order, k < args.length) {now : List (List Byte)} (plain : ∀ arg ∈ now, 0 ∉ arg)
    (lengths : now.map List.length = args.map List.length) :
    fallInShadow (below ++ (argvArea now ++ above)) (order.map (argvAt below.length args)) =
      some (below ++ (argvArea (order.foldl (fun now k => now.modify k List.reverse) now) ++
        above)) := by
  induction order generalizing now with
  | nil => rfl
  | cons k order ih =>
    obtain ⟨here, later⟩ := List.forall_mem_cons.mp known
    have size : now.length = args.length := by simpa using congrArg List.length lengths
    have step := inplaceReverse_argv below above plain (size ▸ here)
    rw [argvAt_lengths _ lengths] at step
    rw [fallInShadow, List.map_cons, List.foldlM_cons, step]
    exact ih later (modify_reverse_plain plain k) ((modify_reverse_lengths now k).trans lengths)

/-- Each string of argv is reversed once and in place, in whatever order argv points to them,
and no other byte changes. -/
theorem fallInShadow_reversed (below above : List Byte) (args : List (List Byte))
    (plain : ∀ arg ∈ args, 0 ∉ arg) (order : List Nat)
    (permuted : order.Perm (List.range args.length)) :
    fallInShadow (below ++ (argvArea args ++ above)) (order.map (argvAt below.length args)) =
      some (below ++ (argvArea (args.map List.reverse) ++ above)) := by
  have known : ∀ k ∈ order, k < args.length := fun k member =>
    List.mem_range.mp (permuted.subset member)
  rw [fallInShadow_run below above args known plain rfl, modify_loop_once List.reverse permuted]

/-- obstack 7 -a, with -a moved in front of the pid. -/
theorem fallInShadow_reversed_permuted :
    fallInShadow (argvArea [[111, 98], [55], [45, 97]]) [0, 5, 3] =
      some (argvArea [[98, 111], [55], [97, 45]]) :=
  fallInShadow_reversed [] [] [[111, 98], [55], [45, 97]] (by decide) [0, 2, 1] (by decide)

/-- A byte swapped with itself would be lost. -/
example : xorSwap [1, 2] 1 1 = some [1, 0] := by decide

end Obstack
