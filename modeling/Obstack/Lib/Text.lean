import Mathlib.Algebra.Group.Nat.Defs
import Mathlib.Data.List.DropRight
import Mathlib.Data.List.TakeWhile

/-! Text as the C library reads and writes it: digits, scanf directives and fgets.
A character stands for one byte; nothing below depends on its code being under 256. -/
namespace CText

abbrev Str := List Char

/-- isspace in the C locale. -/
def isSpace (c : Char) : Bool :=
  c = ' ' || c = '\t' || c = '\n' || c = '\x0b' || c = '\x0c' || c = '\x0d'

def digitValue (c : Char) : Option Nat :=
  if '0' ≤ c ∧ c ≤ '9' then some (c.toNat - '0'.toNat)
  else if 'a' ≤ c ∧ c ≤ 'f' then some (c.toNat - 'a'.toNat + 10)
  else if 'A' ≤ c ∧ c ≤ 'F' then some (c.toNat - 'A'.toNat + 10)
  else none

def isDigitOf (base : Nat) (c : Char) : Bool :=
  match digitValue c with
  | some d => decide (d < base)
  | none => false

def valueOf (base : Nat) (ds : Str) : Nat :=
  ds.foldl (fun v c => v * base + (digitValue c).getD 0) 0

def hex (n : Nat) : Str := Nat.toDigits 16 n
def dec (n : Nat) : Str := Nat.toDigits 10 n

/-! Digits written by printf are read back by scanf. -/

theorem digitValue_digitChar : ∀ d : Fin 16, digitValue (Nat.digitChar d) = some d.val := by
  decide

theorem digit_read {d base : Nat} (small : d < base) (supported : base ≤ 16) :
    digitValue (Nat.digitChar d) = some d :=
  digitValue_digitChar ⟨d, Nat.lt_of_lt_of_le small supported⟩

theorem digit_isDigit {d base : Nat} (small : d < base) (supported : base ≤ 16) :
    isDigitOf base (Nat.digitChar d) = true := by
  simp [isDigitOf, digit_read small supported, small]

theorem toDigits_isDigit {base : Nat} (positive : 1 < base) (supported : base ≤ 16) (n : Nat) :
    ∀ c ∈ Nat.toDigits base n, isDigitOf base c = true := by
  induction n using Nat.strongRecOn with
  | ind n ih =>
    rw [Nat.toDigits_eq_if positive]
    split
    · rename_i small
      intro c hc
      rw [List.mem_singleton] at hc
      exact hc ▸ digit_isDigit small supported
    · rename_i large
      intro c hc
      rcases List.mem_append.mp hc with hc | hc
      · exact ih (n / base) (Nat.div_lt_self (by omega) positive) c hc
      · rw [List.mem_singleton] at hc
        exact hc ▸ digit_isDigit (Nat.mod_lt n (by omega)) supported

theorem valueOf_snoc (base : Nat) (ds : Str) (c : Char) :
    valueOf base (ds ++ [c]) = valueOf base ds * base + (digitValue c).getD 0 := by
  simp [valueOf, List.foldl_append]

theorem valueOf_toDigits {base : Nat} (positive : 1 < base) (supported : base ≤ 16) (n : Nat) :
    valueOf base (Nat.toDigits base n) = n := by
  induction n using Nat.strongRecOn with
  | ind n ih =>
    rw [Nat.toDigits_eq_if positive]
    split
    · rename_i small
      simp [valueOf, digit_read small supported]
    · rename_i large
      have low : n % base < base := Nat.mod_lt n (by omega)
      rw [valueOf_snoc, ih (n / base) (Nat.div_lt_self (by omega) positive),
        digit_read low supported, Option.getD_some]
      exact Nat.div_add_mod' n base

theorem valueOf_leftpad (base width : Nat) (ds : Str) :
    valueOf base (ds.leftpad width '0') = valueOf base ds := by
  have zero : (digitValue '0').getD 0 = 0 := by decide
  simp only [List.leftpad, valueOf, List.foldl_append]
  congr 1
  induction width - ds.length with
  | zero => rfl
  | succ k ih => simpa [List.replicate_succ, zero] using ih

theorem leftpad_isDigit {base width : Nat} {ds : Str} (positive : 0 < base)
    (digits : ∀ c ∈ ds, isDigitOf base c = true) :
    ∀ c ∈ ds.leftpad width '0', isDigitOf base c = true := by
  intro c hc
  rcases List.mem_append.mp hc with hc | hc
  · have zero : c = '0' := List.eq_of_mem_replicate hc
    have value : digitValue '0' = some 0 := by decide
    simp [isDigitOf, zero, value, positive]
  · exact digits c hc

theorem hex_injective {m n : Nat} (same : hex m = hex n) : m = n := by
  have values := congrArg (valueOf 16) same
  rwa [hex, hex, valueOf_toDigits (by decide) (by decide),
    valueOf_toDigits (by decide) (by decide)] at values

theorem hex_length_le {n k : Nat} (positive : 0 < k) (small : n < 16 ^ k) : (hex n).length ≤ k :=
  (Nat.length_toDigits_le_iff (by decide) positive).mpr small

/-! ## scanf -/

/-- The directives of a scanf format: %lx, %ld, %Ns, a literal and a blank. -/
inductive Directive where
  | lx
  | ld
  | s (width : Nat)
  | lit (c : Char)
  | blank
  deriving DecidableEq, Repr

inductive Arg where
  | num (v : BitVec 64)
  | str (s : Str)
  deriving DecidableEq, Repr

def readSign : Str → Bool × Str
  | '-' :: s => (true, s)
  | '+' :: s => (false, s)
  | s => (false, s)

def dropHexPrefix : Str → Str
  | '0' :: 'x' :: s => s
  | '0' :: 'X' :: s => s
  | s => s

/-- Sign, magnitude and rest of the number at the start of the input. -/
def readNumber (base : Nat) (s : Str) : Option (Bool × Nat × Str) :=
  let signed := readSign (s.dropWhile isSpace)
  let s := if base = 16 then dropHexPrefix signed.2 else signed.2
  let ds := s.takeWhile (isDigitOf base)
  if ds = [] then none else some (signed.1, valueOf base ds, s.dropWhile (isDigitOf base))

/-- strtoul: the magnitude saturates, a minus sign negates modulo 2^64. -/
def toULong (negative : Bool) (n : Nat) : BitVec 64 :=
  if 2 ^ 64 ≤ n then BitVec.allOnes 64
  else if negative then -BitVec.ofNat 64 n else BitVec.ofNat 64 n

/-- strtol: saturates at both ends. -/
def toLong (negative : Bool) (n : Nat) : BitVec 64 :=
  if negative then (if 2 ^ 63 ≤ n then BitVec.intMin 64 else -BitVec.ofNat 64 n)
  else BitVec.ofNat 64 (min n (2 ^ 63 - 1))

def readWord (width : Nat) (s : Str) : Str :=
  ((s.dropWhile isSpace).takeWhile (fun c => !isSpace c)).take width

/-- The converted arguments in order; sscanf returns their number. -/
def sscanf : List Directive → Str → List Arg
  | [], _ => []
  | .lx :: ds, s =>
    match readNumber 16 s with
    | none => []
    | some (negative, n, rest) => .num (toULong negative n) :: sscanf ds rest
  | .ld :: ds, s =>
    match readNumber 10 s with
    | none => []
    | some (negative, n, rest) => .num (toLong negative n) :: sscanf ds rest
  | .s width :: ds, s =>
    let word := readWord width s
    if word = [] then [] else .str word :: sscanf ds ((s.dropWhile isSpace).drop word.length)
  | .lit c :: ds, s =>
    match s with
    | [] => []
    | c' :: rest => if c' = c then sscanf ds rest else []
  | .blank :: ds, s => sscanf ds (s.dropWhile isSpace)

theorem digit_not_space {base : Nat} {c : Char} (digit : isDigitOf base c = true) :
    isSpace c = false := by
  have spaces : ∀ s ∈ [' ', '\t', '\n', '\x0b', '\x0c', '\x0d'], digitValue s = none := by
    simp [digitValue]
  cases space : isSpace c with
  | false => rfl
  | true =>
    have member : c ∈ [' ', '\t', '\n', '\x0b', '\x0c', '\x0d'] := by
      simpa [isSpace, or_assoc] using space
    simp [isDigitOf, spaces c member] at digit

theorem toDigits_no_space {base : Nat} (positive : 1 < base) (supported : base ≤ 16) (n : Nat)
    {c : Char} (space : isSpace c = true) : c ∉ Nat.toDigits base n := by
  intro member
  have solid := digit_not_space (toDigits_isDigit positive supported n c member)
  simp [solid] at space

theorem digit_not_sign {base : Nat} {c : Char} (digit : isDigitOf base c = true) :
    c ≠ '-' ∧ c ≠ '+' ∧ c ≠ 'x' ∧ c ≠ 'X' := by
  have signs : ∀ s ∈ ['-', '+', 'x', 'X'], digitValue s = none := by
    simp [digitValue]
  have absent : ∀ s ∈ ['-', '+', 'x', 'X'], c ≠ s := by
    rintro s hs rfl
    simp [isDigitOf, signs c hs] at digit
  exact ⟨absent _ (by decide), absent _ (by decide), absent _ (by decide), absent _ (by decide)⟩

/-- What may follow a number: no further digit, and no x that would turn a 0 into a prefix. -/
def Stops (base : Nat) (rest : Str) : Prop :=
  ∀ c ∈ rest.head?, isDigitOf base c = false ∧ c ≠ 'x' ∧ c ≠ 'X'

theorem stops_cons {base : Nat} {c : Char} {rest : Str}
    (other : isDigitOf base c = false ∧ c ≠ 'x' ∧ c ≠ 'X') : Stops base (c :: rest) := by
  intro d hd
  obtain rfl : c = d := by simpa using hd
  exact other

theorem dropHexPrefix_eq {s : Str} (plain : ∀ c ∈ s[1]?, c ≠ 'x' ∧ c ≠ 'X') :
    dropHexPrefix s = s := by
  unfold dropHexPrefix
  split
  · exact absurd rfl (plain 'x' (by simp)).1
  · exact absurd rfl (plain 'X' (by simp)).2
  · rfl

theorem readNumber_digits {base : Nat} {ds rest : Str}
    (digits : ∀ c ∈ ds, isDigitOf base c = true) (nonempty : ds ≠ []) (stops : Stops base rest) :
    readNumber base (ds ++ rest) = some (false, valueOf base ds, rest) := by
  obtain ⟨d, ds, rfl⟩ := List.exists_cons_of_ne_nil nonempty
  have head := digits d (by simp)
  have noSpace : (d :: ds ++ rest).dropWhile isSpace = d :: ds ++ rest := by
    simp [digit_not_space head]
  have noSign : readSign (d :: ds ++ rest) = (false, d :: ds ++ rest) := by
    unfold readSign
    split
    · rename_i h; exact absurd (List.cons.inj h).1 (digit_not_sign head).1
    · rename_i h; exact absurd (List.cons.inj h).1 (digit_not_sign head).2.1
    · rfl
  have noPrefix : dropHexPrefix (d :: ds ++ rest) = d :: ds ++ rest := by
    apply dropHexPrefix_eq
    intro c hc
    cases ds with
    | nil => exact (stops c (by simpa [List.head?_eq_getElem?] using hc)).2
    | cons e es =>
      have he : e = c := by simpa using hc
      exact he ▸ (digit_not_sign (digits e (by simp))).2.2
  have taken : (d :: ds ++ rest).takeWhile (isDigitOf base) = d :: ds := by
    rw [List.takeWhile_append_of_pos digits]
    cases rest with
    | nil => simp
    | cons c rest => simp [(stops c rfl).1]
  have dropped : (d :: ds ++ rest).dropWhile (isDigitOf base) = rest := by
    rw [List.dropWhile_append_of_pos digits]
    cases rest with
    | nil => simp
    | cons c rest => simp [(stops c rfl).1]
  simp only [readNumber, noSpace, noSign, noPrefix, ite_self, taken, dropped]
  simp

theorem readNumber_blanks (base k : Nat) (s : Str) :
    readNumber base (List.replicate k ' ' ++ s) = readNumber base s := by
  have blanks : (List.replicate k ' ' ++ s).dropWhile isSpace = s.dropWhile isSpace :=
    List.dropWhile_append_of_pos (fun c hc => by rw [List.eq_of_mem_replicate hc]; decide)
  simp only [readNumber, blanks]

theorem toULong_small {n : Nat} (small : n < 2 ^ 64) : toULong false n = BitVec.ofNat 64 n := by
  rw [toULong, if_neg (Nat.not_le.mpr small)]
  simp

theorem readNumber_skip (base : Nat) (s : Str) :
    readNumber base (s.dropWhile isSpace) = readNumber base s := by
  simp only [readNumber, List.dropWhile_idempotent]

@[simp] theorem sscanf_lit (c : Char) (ds : List Directive) (s : Str) :
    sscanf (.lit c :: ds) (c :: s) = sscanf ds s := by
  simp [sscanf]

/-! A blank directive adds nothing before a conversion that skips white space itself. -/

@[simp] theorem sscanf_blank_lx (ds : List Directive) (s : Str) :
    sscanf (.blank :: .lx :: ds) s = sscanf (.lx :: ds) s := by
  simp only [sscanf, readNumber_skip]

@[simp] theorem sscanf_blank_ld (ds : List Directive) (s : Str) :
    sscanf (.blank :: .ld :: ds) s = sscanf (.ld :: ds) s := by
  simp only [sscanf, readNumber_skip]

@[simp] theorem sscanf_blank_s (width : Nat) (ds : List Directive) (s : Str) :
    sscanf (.blank :: .s width :: ds) s = sscanf (.s width :: ds) s := by
  have word : readWord width (s.dropWhile isSpace) = readWord width s := by
    simp only [readWord, List.dropWhile_idempotent]
  simp only [sscanf, word, List.dropWhile_idempotent]

/-- %lx reads back a zero-padded %lx. -/
theorem sscanf_hex {n width : Nat} {ds : List Directive} {rest : Str} (small : n < 2 ^ 64)
    (stops : Stops 16 rest) :
    sscanf (.lx :: ds) ((hex n).leftpad width '0' ++ rest) =
      .num (BitVec.ofNat 64 n) :: sscanf ds rest := by
  have digits : ∀ c ∈ (hex n).leftpad width '0', isDigitOf 16 c = true :=
    leftpad_isDigit (by decide) (toDigits_isDigit (by decide) (by decide) n)
  have nonempty : (hex n).leftpad width '0' ≠ [] := by simp [hex, List.leftpad]
  have value : valueOf 16 ((hex n).leftpad width '0') = n := by
    rw [valueOf_leftpad, hex, valueOf_toDigits (by decide) (by decide)]
  simp only [sscanf, readNumber_digits digits nonempty stops, value, toULong_small small]

/-- %ld reads back a %lu, up to the largest long. -/
theorem sscanf_dec {n : Nat} {ds : List Directive} {rest : Str} (stops : Stops 10 rest) :
    sscanf (.ld :: ds) (dec n ++ rest) =
      .num (BitVec.ofNat 64 (min n (2 ^ 63 - 1))) :: sscanf ds rest := by
  have digits := toDigits_isDigit (by decide) (by decide : 10 ≤ 16) n
  have nonempty : dec n ≠ [] := by simp [dec]
  have value : valueOf 10 (dec n) = n := by
    rw [dec, valueOf_toDigits (by decide) (by decide)]
  have read := readNumber_digits digits nonempty stops
  simp only [sscanf, dec] at *
  simp only [read, value, toLong, Bool.false_eq_true, if_false]

@[simp] theorem sscanf_lx_space (ds : List Directive) (s : Str) :
    sscanf (.lx :: ds) (' ' :: s) = sscanf (.lx :: ds) s := by
  have skipped : readNumber 16 (' ' :: s) = readNumber 16 s := readNumber_blanks 16 1 s
  simp only [sscanf, skipped]

@[simp] theorem sscanf_ld_space (ds : List Directive) (s : Str) :
    sscanf (.ld :: ds) (' ' :: s) = sscanf (.ld :: ds) s := by
  have skipped : readNumber 10 (' ' :: s) = readNumber 10 s := readNumber_blanks 10 1 s
  simp only [sscanf, skipped]

@[simp] theorem sscanf_s_space (width : Nat) (ds : List Directive) (s : Str) :
    sscanf (.s width :: ds) (' ' :: s) = sscanf (.s width :: ds) s := by
  have skipped : (' ' :: s).dropWhile isSpace = s.dropWhile isSpace := rfl
  have word : readWord width (' ' :: s) = readWord width s := rfl
  simp only [sscanf, word, skipped]

theorem readWord_blanks (width k : Nat) (s : Str) :
    readWord width (List.replicate k ' ' ++ s) = readWord width s := by
  have blanks : (List.replicate k ' ' ++ s).dropWhile isSpace = s.dropWhile isSpace :=
    List.dropWhile_append_of_pos (fun c hc => by rw [List.eq_of_mem_replicate hc]; decide)
  simp only [readWord, blanks]

theorem readWord_take {width n : Nat} {s : Str} (solid : ∀ c ∈ s.head?, isSpace c = false)
    (room : width ≤ n) : readWord width (s.take n) = readWord width s := by
  have start {t : Str} (head : ∀ c ∈ t.head?, isSpace c = false) : t.dropWhile isSpace = t := by
    cases t with
    | nil => rfl
    | cons c t => simp [head c rfl]
  have cut : ∀ c ∈ (s.take n).head?, isSpace c = false := by
    intro c first
    cases s with
    | nil => simp at first
    | cons d s =>
      cases n with
      | zero => simp at first
      | succ n => exact solid c first
  rw [readWord, readWord, start solid, start cut, ← List.take_takeWhile, List.take_take,
    Nat.min_eq_left room]

theorem sscanf_word {word : Str} {width : Nat} {ds : List Directive} {rest : Str}
    (solid : ∀ c ∈ word, isSpace c = false) (nonempty : word ≠ []) (full : word.length = width) :
    sscanf (.s width :: ds) (word ++ rest) = .str word :: sscanf ds rest := by
  subst full
  obtain ⟨c, cs, rfl⟩ := List.exists_cons_of_ne_nil nonempty
  have start : (c :: cs ++ rest).dropWhile isSpace = c :: cs ++ rest := by
    simp [solid c (by simp)]
  have taken : ((c :: cs ++ rest).takeWhile (fun c => !isSpace c)).take (c :: cs).length =
      c :: cs := by
    rw [List.takeWhile_append_of_pos (fun d hd => by simp [solid d hd])]
    simp
  simp only [sscanf, readWord, start, taken, if_neg (List.cons_ne_nil c cs)]
  simp

/-! ## fgets -/

/-- At most n bytes, through the first newline. -/
def fgets : Nat → Str → Str × Str
  | 0, s => ([], s)
  | _ + 1, [] => ([], [])
  | n + 1, c :: s =>
    if c = '\n' then ([c], s) else (c :: (fgets n s).1, (fgets n s).2)

/-- Successive fgets calls with a buffer of the given size, until the end of the file. -/
def fgetsAll (size : Nat) : Nat → Str → List Str
  | 0, _ => []
  | fuel + 1, s =>
    if s = [] then [] else (fgets (size - 1) s).1 :: fgetsAll size fuel (fgets (size - 1) s).2

def readLines (size : Nat) (file : Str) : List Str := fgetsAll size file.length file

/-! Every call makes progress, so the fuel does not matter once it covers the file. -/

theorem fgets_append (n : Nat) (s : Str) : (fgets n s).1 ++ (fgets n s).2 = s := by
  induction n generalizing s with
  | zero => rfl
  | succ n ih =>
    cases s with
    | nil => rfl
    | cons c s =>
      by_cases newline : c = '\n'
      · simp [fgets, newline]
      · simp [fgets, newline, ih s]

theorem fgets_progress {n : Nat} (room : 0 < n) {s : Str} (nonempty : s ≠ []) :
    (fgets n s).2.length < s.length := by
  obtain ⟨m, rfl⟩ := Nat.exists_eq_succ_of_ne_zero (Nat.ne_of_gt room)
  obtain ⟨c, s, rfl⟩ := List.exists_cons_of_ne_nil nonempty
  by_cases newline : c = '\n'
  · simp [fgets, newline]
  · have parts := congrArg List.length (fgets_append m s)
    simp only [List.length_append] at parts
    simp only [fgets, if_neg newline, List.length_cons]
    omega

theorem fgetsAll_fuel {size : Nat} (room : 1 < size) (fuel : Nat) (s : Str)
    (enough : s.length ≤ fuel) : fgetsAll size fuel s = readLines size s := by
  induction fuel using Nat.strongRecOn generalizing s with
  | ind fuel ih =>
    cases s with
    | nil => cases fuel <;> rfl
    | cons c s =>
      obtain ⟨k, rfl⟩ := Nat.exists_eq_succ_of_ne_zero (Nat.ne_of_gt (Nat.zero_lt_of_lt enough))
      have progress := fgets_progress (by omega : 0 < size - 1) (List.cons_ne_nil c s)
      simp only [List.length_cons] at enough progress
      have rest := ih k (by omega) (fgets (size - 1) (c :: s)).2 (by omega)
      have again := ih s.length (by omega) (fgets (size - 1) (c :: s)).2 (by omega)
      simp only [readLines, List.length_cons, fgetsAll, if_neg (List.cons_ne_nil c s)] at rest again ⊢
      rw [rest, again]

theorem readLines_step {size : Nat} (room : 1 < size) {s : Str} (nonempty : s ≠ []) :
    readLines size s = (fgets (size - 1) s).1 :: readLines size (fgets (size - 1) s).2 := by
  have progress := fgets_progress (by omega : 0 < size - 1) nonempty
  obtain ⟨c, s, rfl⟩ := List.exists_cons_of_ne_nil nonempty
  rw [← fgetsAll_fuel room s.length (fgets (size - 1) (c :: s)).2 (Nat.le_of_lt_succ progress)]
  simp only [readLines, List.length_cons, fgetsAll, if_neg (List.cons_ne_nil c s)]

/-! A line ends a piece, so the pieces of a file are the pieces of its lines. -/

theorem fgets_line (n : Nat) (body rest : Str) (plain : '\n' ∉ body) (short : body.length < n) :
    fgets n (body ++ '\n' :: rest) = (body ++ ['\n'], rest) := by
  induction body generalizing n with
  | nil =>
    obtain ⟨m, rfl⟩ := Nat.exists_eq_succ_of_ne_zero (Nat.ne_of_gt short)
    simp [fgets]
  | cons c body ih =>
    obtain ⟨m, rfl⟩ := Nat.exists_eq_succ_of_ne_zero (Nat.ne_of_gt (Nat.zero_lt_of_lt short))
    simp only [List.mem_cons, not_or] at plain
    have tail := ih m plain.2 (by simpa using short)
    simp [fgets, Ne.symm plain.1, tail]

theorem fgets_full (n : Nat) (body rest : Str) (plain : '\n' ∉ body) (long : n ≤ body.length) :
    fgets n (body ++ rest) = (body.take n, body.drop n ++ rest) := by
  induction n generalizing body with
  | zero => rfl
  | succ n ih =>
    obtain ⟨c, body, rfl⟩ := List.exists_cons_of_length_pos (Nat.zero_lt_of_lt long)
    simp only [List.mem_cons, not_or] at plain
    have tail := ih body plain.2 (by simpa using long)
    simp [fgets, Ne.symm plain.1, tail]

theorem readLines_line {size : Nat} (room : 1 < size) (body rest : Str) (plain : '\n' ∉ body) :
    readLines size (body ++ '\n' :: rest) = readLines size (body ++ ['\n']) ++ readLines size rest := by
  induction size' : body.length using Nat.strongRecOn generalizing body with
  | ind len ih =>
    rw [readLines_step room (by simp), readLines_step (s := body ++ ['\n']) room (by simp)]
    by_cases short : body.length < size - 1
    · rw [fgets_line _ _ _ plain short, fgets_line _ _ [] plain short]
      rfl
    · have long : size - 1 ≤ body.length := Nat.le_of_not_lt short
      rw [fgets_full _ _ _ plain long, fgets_full _ _ _ plain long]
      have fewer : (body.drop (size - 1)).length < len := by rw [List.length_drop]; omega
      simp only [List.cons_append,
        ih _ fewer (body.drop (size - 1)) (fun h => plain (List.mem_of_mem_drop h)) rfl]

def IsLine (l : Str) : Prop := ∃ body, l = body ++ ['\n'] ∧ '\n' ∉ body

theorem fgets_isLine (n : Nat) {l : Str} (isLine : IsLine l) : fgets n l = (l.take n, l.drop n) := by
  obtain ⟨body, rfl, plain⟩ := isLine
  by_cases short : body.length < n
  · have whole : (body ++ ['\n']).length ≤ n := by
      rw [List.length_append, List.length_singleton]
      omega
    rw [fgets_line n body [] plain short, List.take_of_length_le whole, List.drop_of_length_le whole]
  · have long : n ≤ body.length := Nat.le_of_not_lt short
    rw [fgets_full n body ['\n'] plain long, List.take_append_of_le_length long,
      List.drop_append_of_le_length long]

theorem readLines_flatten {size : Nat} (room : 1 < size) (lines : List Str)
    (ended : ∀ l ∈ lines, IsLine l) :
    readLines size lines.flatten = lines.flatMap (readLines size) := by
  induction lines with
  | nil => rfl
  | cons l lines ih =>
    obtain ⟨body, rfl, plain⟩ := ended l (by simp)
    have tail := ih (fun l hl => ended l (by simp [hl]))
    rw [List.flatten_cons, List.append_assoc, List.singleton_append,
      readLines_line room body _ plain, tail, List.flatMap_cons]

theorem readLines_fits {size : Nat} {l : Str} (isLine : IsLine l) (short : l.length < size) :
    readLines size l = [l] := by
  obtain ⟨body, rfl, plain⟩ := isLine
  simp only [List.length_append, List.length_singleton] at short
  rw [readLines_step (by omega) (by simp), fgets_line _ _ [] plain (by omega)]
  rfl

end CText
