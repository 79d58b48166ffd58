import Mathlib.Data.List.Infix
import Mathlib.Data.List.TakeWhile

/-! getopt_long: short options in clusters, their arguments attached or in the next element, long
options that may be cut short as long as they stay clear, and "--". The operands are moved behind
the options, or end them where POSIXLY_CORRECT is set. A command line is what a list of words is
written as. -/
namespace Getopt

abbrev Text := List Char

structure LongOption where
  name : Text
  takesArg : Bool
  val : Char
  deriving DecidableEq, Repr

/-- Whether a character is an option, and if it is, whether it takes an argument. -/
structure Table where
  short : Char → Option Bool
  long : List LongOption

/-- What one call returns: an option with optarg, or '?'. -/
inductive Found where
  | option (c : Char) (arg : Option Text)
  | bad
  deriving DecidableEq, Repr

/-- An element of argv: no option, "--", or options and the one that waits for its argument. -/
inductive Element where
  | operand
  | terminator
  | options (found : List Found) (pending : Option Char)
  deriving DecidableEq, Repr

def cluster (t : Table) : Text → List Found × Option Char
  | [] => ([], none)
  | c :: cs =>
    match t.short c with
    | none => (.bad :: (cluster t cs).1, (cluster t cs).2)
    | some false => (.option c none :: (cluster t cs).1, (cluster t cs).2)
    | some true => if cs = [] then ([], some c) else ([.option c (some cs)], none)

/-- An exact match, or else the first entry that the name begins, where all such agree. -/
def findLong (long : List LongOption) (name : Text) : Option LongOption :=
  match long.find? (fun p => p.name = name) with
  | some p => some p
  | none =>
    match long.filter (fun p => name <+: p.name) with
    | [] => none
    | p :: others => if ∀ q ∈ others, q.takesArg = p.takesArg ∧ q.val = p.val then some p else none

def longOption (t : Table) (body : Text) : List Found × Option Char :=
  match findLong t.long (body.takeWhile (· ≠ '=')), body.dropWhile (· ≠ '=') with
  | none, _ => ([.bad], none)
  | some p, [] => if p.takesArg then ([], some p.val) else ([.option p.val none], none)
  | some p, _ :: arg => if p.takesArg then ([.option p.val (some arg)], none) else ([.bad], none)

def element (t : Table) : Text → Element
  | '-' :: '-' :: body =>
    if body = [] then .terminator
    else .options (longOption t body).1 (longOption t body).2
  | '-' :: c :: body => .options (cluster t (c :: body)).1 (cluster t (c :: body)).2
  | _ => .operand

/-- The results of all calls, and argv from optind on after the last; pending is an option whose
argument is the next element, posix says that POSIXLY_CORRECT is set. -/
def scan (posix : Bool) (t : Table) : Option Char → List Text → List Found × List Text
  | none, [] => ([], [])
  | some _, [] => ([.bad], [])
  | some c, arg :: args =>
    (.option c (some arg) :: (scan posix t none args).1, (scan posix t none args).2)
  | none, arg :: args =>
    match element t arg with
    | .operand =>
      if posix then ([], arg :: args)
      else ((scan posix t none args).1, arg :: (scan posix t none args).2)
    | .terminator => ([], args)
    | .options found pending =>
      (found ++ (scan posix t pending args).1, (scan posix t pending args).2)

/-! ## What is written -/

/-- Flags in one element, with an option and its argument behind them or not; a long option. -/
inductive Word where
  | operand (text : Text)
  | flags (cs : Text)
  | short (cs : Text) (c : Char) (arg : Text) (attached : Bool)
  | long (name : Text) (p : LongOption)
  | longArg (name : Text) (p : LongOption) (arg : Text) (attached : Bool)
  deriving DecidableEq, Repr

namespace Word

def render : Word → List Text
  | operand text => [text]
  | flags cs => ['-' :: cs]
  | short cs c arg true => ['-' :: (cs ++ c :: arg)]
  | short cs c arg false => ['-' :: (cs ++ [c]), arg]
  | long name _ => ['-' :: '-' :: name]
  | longArg name _ arg true => ['-' :: '-' :: (name ++ '=' :: arg)]
  | longArg name _ arg false => ['-' :: '-' :: name, arg]

def found : Word → List Found
  | operand _ => []
  | flags cs => cs.map (fun c => .option c none)
  | short cs c arg _ => cs.map (fun c => .option c none) ++ [.option c (some arg)]
  | long _ p => [.option p.val none]
  | longArg _ p arg _ => [.option p.val (some arg)]

def operands : Word → List Text
  | operand text => [text]
  | _ => []

def Flags (t : Table) (cs : Text) : Prop := ∀ c ∈ cs, t.short c = some false

def Plain (text : Text) : Prop := text = ['-'] ∨ text.head? ≠ some '-'

/-- A cluster does not begin with '-', an attached argument is not empty; no operand is among the
options where the first one ends them. -/
def Valid (posix : Bool) (t : Table) : Word → Prop
  | operand text => posix = false ∧ Plain text
  | flags cs => cs ≠ [] ∧ cs.head? ≠ some '-' ∧ Flags t cs
  | short cs c arg attached =>
    (cs ++ [c]).head? ≠ some '-' ∧ Flags t cs ∧ t.short c = some true ∧ (attached = true → arg ≠ [])
  | long name p => name ≠ [] ∧ '=' ∉ name ∧ findLong t.long name = some p ∧ p.takesArg = false
  | longArg name p _ attached =>
    (attached = false → name ≠ []) ∧ '=' ∉ name ∧ findLong t.long name = some p ∧
      p.takesArg = true

end Word

/-- What ends the options: nothing, "--" with operands behind it, or the first operand. -/
inductive Tail where
  | none
  | marked (operands : List Text)
  | stopped (first : Text) (args : List Text)
  deriving DecidableEq, Repr

namespace Tail

def render : Tail → List Text
  | none => []
  | marked operands => ['-', '-'] :: operands
  | stopped first args => first :: args

def operands : Tail → List Text
  | none => []
  | marked operands => operands
  | stopped first args => first :: args

def Valid (posix : Bool) : Tail → Prop
  | none => True
  | marked _ => True
  | stopped first _ => posix = true ∧ Word.Plain first

end Tail

def render (words : List Word) (tail : Tail) : List Text := words.flatMap Word.render ++ tail.render

/-! ## Every command line without an error is written so -/

section Scan

variable {posix : Bool} {t : Table} {cs : Text}

theorem cluster_flags (flags : Word.Flags t cs) (behind : Text) :
    cluster t (cs ++ behind) =
      (cs.map (fun c => .option c none) ++ (cluster t behind).1, (cluster t behind).2) := by
  induction cs with
  | nil => rfl
  | cons c cs ih =>
    have rest := ih fun x member => flags x (List.mem_cons_of_mem c member)
    simp only [List.cons_append, cluster, flags c List.mem_cons_self, rest, List.map_cons]

theorem element_cluster {c : Char} (first : c ≠ '-') (cs : Text) :
    element t ('-' :: c :: cs) = .options (cluster t (c :: cs)).1 (cluster t (c :: cs)).2 := by
  rw [element]
  exact first

theorem element_short (nonempty : cs ≠ []) (first : cs.head? ≠ some '-') :
    element t ('-' :: cs) = .options (cluster t cs).1 (cluster t cs).2 := by
  cases cs with
  | nil => exact absurd rfl nonempty
  | cons c cs => exact element_cluster (by simpa using first) cs

theorem element_long {body : Text} (nonempty : body ≠ []) :
    element t ('-' :: '-' :: body) = .options (longOption t body).1 (longOption t body).2 := by
  rw [element, if_neg nonempty]

theorem takeWhile_name {name : Text} (plain : '=' ∉ name) (behind : Text) :
    (name ++ '=' :: behind).takeWhile (· ≠ '=') = name ∧
      (name ++ '=' :: behind).dropWhile (· ≠ '=') = '=' :: behind := by
  have other : ∀ c ∈ name, decide (c ≠ '=') = true := fun c member =>
    decide_eq_true (ne_of_mem_of_not_mem member plain)
  constructor
  · rw [List.takeWhile_append_of_pos other]
    simp
  · rw [List.dropWhile_append_of_pos other]
    simp

theorem takeWhile_all {name : Text} (plain : '=' ∉ name) :
    name.takeWhile (· ≠ '=') = name ∧ name.dropWhile (· ≠ '=') = [] := by
  have other : ∀ c ∈ name, decide (c ≠ '=') = true := fun c member =>
    decide_eq_true (ne_of_mem_of_not_mem member plain)
  exact ⟨List.takeWhile_eq_self_iff.mpr other, List.dropWhile_eq_nil_iff.mpr other⟩

theorem longOption_bare {name : Text} {p : LongOption} (plain : '=' ∉ name)
    (known : findLong t.long name = some p) :
    longOption t name = if p.takesArg then ([], some p.val) else ([.option p.val none], none) := by
  rw [longOption, (takeWhile_all plain).1, (takeWhile_all plain).2, known]

theorem longOption_valued {name : Text} {p : LongOption} (plain : '=' ∉ name)
    (known : findLong t.long name = some p) (arg : Text) :
    longOption t (name ++ '=' :: arg) =
      if p.takesArg then ([.option p.val (some arg)], none) else ([.bad], none) := by
  rw [longOption, (takeWhile_name plain arg).1, (takeWhile_name plain arg).2, known]

theorem element_operand {text : Text} (valid : Word.Plain text) : element t text = .operand := by
  rcases valid with rfl | first
  · rfl
  · cases text with
    | nil => rfl
    | cons c cs =>
      have plain : c ≠ '-' := by simpa using first
      rw [element]
      · rintro body same
        exact plain (List.cons.inj same).1
      · rintro x body same
        exact plain (List.cons.inj same).1

/-- A word is read as what it says, whatever comes behind it. -/
theorem scan_word {w : Word} (valid : w.Valid posix t) (args : List Text) :
    scan posix t none (w.render ++ args) =
      (w.found ++ (scan posix t none args).1, w.operands ++ (scan posix t none args).2) := by
  cases w with
  | operand text =>
    obtain ⟨moved, plain⟩ := valid
    simp only [Word.render, List.singleton_append, scan, element_operand plain, moved]
    rfl
  | flags cs =>
    obtain ⟨nonempty, first, flags⟩ := valid
    have read := cluster_flags flags []
    rw [List.append_nil] at read
    simp only [Word.render, List.singleton_append, scan, element_short nonempty first, read]
    simp [Word.found, Word.operands, cluster]
  | short cs c arg attached =>
    obtain ⟨first, flags, known, nonempty⟩ := valid
    have head : ∀ behind, (cs ++ c :: behind).head? ≠ some '-' := by
      intro behind
      cases cs <;> simpa using first
    cases attached with
    | true =>
      have read := cluster_flags flags (c :: arg)
      simp only [cluster, known, if_neg (nonempty rfl)] at read
      simp only [Word.render, List.singleton_append, scan, element_short (by simp) (head arg), read]
      rfl
    | false =>
      have read := cluster_flags flags [c]
      simp only [cluster, known, if_true] at read
      simp only [Word.render, List.cons_append, List.nil_append, scan,
        element_short (by simp) (head []), read]
      simp [Word.found, Word.operands]
  | long name p =>
    obtain ⟨nonempty, plain, known, flag⟩ := valid
    have read : longOption t name = ([.option p.val none], none) := by
      simp [longOption_bare plain known, flag]
    simp only [Word.render, List.singleton_append, scan, element_long nonempty, read]
    rfl
  | longArg name p arg attached =>
    obtain ⟨named, plain, known, takes⟩ := valid
    cases attached with
    | true =>
      have read : longOption t (name ++ '=' :: arg) = ([.option p.val (some arg)], none) := by
        simp [longOption_valued plain known, takes]
      have nonempty : name ++ '=' :: arg ≠ [] := by simp
      simp only [Word.render, List.singleton_append, scan, element_long nonempty, read]
      rfl
    | false =>
      have read : longOption t name = ([], some p.val) := by
        simp [longOption_bare plain known, takes]
      simp only [Word.render, List.cons_append, List.nil_append, scan,
        element_long (named rfl), read]
      rfl

theorem scan_render {words : List Word} (valid : ∀ w ∈ words, w.Valid posix t) {tail : Tail}
    (ends : tail.Valid posix) :
    scan posix t none (render words tail) =
      (words.flatMap Word.found, words.flatMap Word.operands ++ tail.operands) := by
  induction words with
  | nil =>
    cases tail with
    | none => rfl
    | marked operands => rfl
    | stopped first args =>
      obtain ⟨stops, plain⟩ := ends
      change scan posix t none (first :: args) = _
      simp only [scan, element_operand plain, stops, if_true]
      rfl
  | cons w words ih =>
    have first := scan_word (valid w List.mem_cons_self) (render words tail)
    rw [ih fun x member => valid x (List.mem_cons_of_mem w member)] at first
    simp only [render, List.flatMap_cons, List.append_assoc] at first ⊢
    exact first

/-- What a cluster without an unknown letter is. -/
inductive Clustered (t : Table) : Text → List Found → Option Char → Prop where
  | flags (cs : Text) (flags : Word.Flags t cs) :
    Clustered t cs (cs.map (fun c => .option c none)) none
  | waiting (cs : Text) (c : Char) (flags : Word.Flags t cs) (known : t.short c = some true) :
    Clustered t (cs ++ [c]) (cs.map (fun c => .option c none)) (some c)
  | attached (cs : Text) (c : Char) (arg : Text) (flags : Word.Flags t cs)
    (known : t.short c = some true) (nonempty : arg ≠ []) :
    Clustered t (cs ++ c :: arg) (cs.map (fun c => .option c none) ++ [.option c (some arg)]) none

theorem Clustered.cons {c : Char} {found : List Found} {pending : Option Char}
    (known : t.short c = some false) (rest : Clustered t cs found pending) :
    Clustered t (c :: cs) (.option c none :: found) pending := by
  have more : ∀ {flags : Text}, Word.Flags t flags → Word.Flags t (c :: flags) := by
    intro flags all x member
    rcases List.mem_cons.mp member with rfl | later
    · exact known
    · exact all x later
  cases rest with
  | flags _ flags => exact .flags (c :: cs) (more flags)
  | waiting cs x flags last => exact .waiting (c :: cs) x (more flags) last
  | attached cs x arg flags last nonempty =>
    exact .attached (c :: cs) x arg (more flags) last nonempty

theorem clustered (clean : .bad ∉ (cluster t cs).1) :
    Clustered t cs (cluster t cs).1 (cluster t cs).2 := by
  induction cs with
  | nil => exact .flags [] (by simp [Word.Flags])
  | cons c cs ih =>
    cases known : t.short c with
    | none => simp [cluster, known] at clean
    | some takesArg =>
      cases takesArg with
      | false =>
        simp only [cluster, known, List.mem_cons, reduceCtorEq, false_or] at clean ⊢
        exact (ih clean).cons known
      | true =>
        simp only [cluster, known]
        split
        · rename_i last
          subst last
          exact .waiting [] c (by simp [Word.Flags]) known
        · rename_i nonempty
          exact .attached [] c cs (by simp [Word.Flags]) known nonempty

/-- What a long option without an error is. -/
inductive Named (t : Table) : Text → List Found → Option Char → Prop where
  | flag (name : Text) (p : LongOption) (plain : '=' ∉ name) (known : findLong t.long name = some p)
    (flag : p.takesArg = false) : Named t name [.option p.val none] none
  | waiting (name : Text) (p : LongOption) (plain : '=' ∉ name)
    (known : findLong t.long name = some p) (takes : p.takesArg = true) :
    Named t name [] (some p.val)
  | attached (name : Text) (p : LongOption) (arg : Text) (plain : '=' ∉ name)
    (known : findLong t.long name = some p) (takes : p.takesArg = true) :
    Named t (name ++ '=' :: arg) [.option p.val (some arg)] none

theorem named {body : Text} (clean : .bad ∉ (longOption t body).1) :
    Named t body (longOption t body).1 (longOption t body).2 := by
  have split := List.takeWhile_append_dropWhile (p := fun c => decide (c ≠ '=')) (l := body)
  have plain : '=' ∉ body.takeWhile (· ≠ '=') := fun member =>
    absurd (List.mem_takeWhile_imp member) (by simp)
  cases known : findLong t.long (body.takeWhile (· ≠ '=')) with
  | none =>
    rw [longOption, known] at clean
    simp at clean
  | some p =>
    cases behind : body.dropWhile (· ≠ '=') with
    | nil =>
      have whole : body.takeWhile (· ≠ '=') = body := by
        rw [behind, List.append_nil] at split
        exact split
      simp only [longOption, known, behind]
      rw [whole] at plain known
      cases takes : p.takesArg with
      | true => exact .waiting body p plain known takes
      | false => exact .flag body p plain known takes
    | cons equals arg =>
      have sign : equals = '=' := by
        have first := List.head?_dropWhile_not (fun c => decide (c ≠ '=')) body
        rw [behind] at first
        simpa using first
      subst sign
      cases takes : p.takesArg with
      | false =>
        rw [longOption, known, behind] at clean
        simp [takes] at clean
      | true =>
        simp only [longOption, known, behind, takes, if_true]
        rw [behind] at split
        have written := Named.attached (t := t) _ p arg plain known takes
        rw [split] at written
        exact written

/-- Written by words, behind the argument of an option that waits for it. -/
def Written (posix : Bool) (t : Table) (pending : Option Char) (args : List Text) : Prop :=
  ∃ words tail, (∀ w ∈ words, Word.Valid posix t w) ∧ Tail.Valid posix tail ∧ match pending with
    | none => args = render words tail
    | some _ => ∃ arg, args = arg :: render words tail

theorem Written.cons {w : Word} {args : List Text} (valid : w.Valid posix t)
    (later : Written posix t none args) : Written posix t none (w.render ++ args) := by
  obtain ⟨words, tail, others, ends, rfl⟩ := later
  refine ⟨w :: words, tail, ?_, ends, ?_⟩
  · intro x member
    rcases List.mem_cons.mp member with rfl | member
    · exact valid
    · exact others x member
  · simp [render]

theorem Written.clustered {c : Char} {found : List Found} {pending : Option Char}
    {args : List Text} (first : c ≠ '-') (read : Clustered t (c :: cs) found pending)
    (later : Written posix t pending args) : Written posix t none (('-' :: c :: cs) :: args) := by
  have head : ∀ {text : Text}, text = c :: cs → text.head? ≠ some '-' := by
    rintro text rfl
    simpa using first
  generalize whole : c :: cs = text at read ⊢
  cases read with
  | flags _ flags =>
    exact Written.cons (w := .flags text) ⟨by simp [← whole], head whole.symm, flags⟩ later
  | waiting fs x flags known =>
    obtain ⟨words, tail, valid, ends, arg, rfl⟩ := later
    exact Written.cons (w := .short fs x arg false)
      ⟨head whole.symm, flags, known, by simp⟩ ⟨words, tail, valid, ends, rfl⟩
  | attached fs x arg flags known nonempty =>
    have begins : (fs ++ [x]).head? ≠ some '-' := by
      have starts := head whole.symm
      cases fs <;> simpa using starts
    exact Written.cons (w := .short fs x arg true)
      ⟨begins, flags, known, fun _ => nonempty⟩ later

theorem Written.named {body : Text} {found : List Found} {pending : Option Char}
    {args : List Text} (nonempty : body ≠ []) (read : Named t body found pending)
    (later : Written posix t pending args) :
    Written posix t none (('-' :: '-' :: body) :: args) := by
  cases read with
  | flag _ p plain known flag =>
    exact Written.cons (w := .long body p) ⟨nonempty, plain, known, flag⟩ later
  | waiting _ p plain known takes =>
    obtain ⟨words, tail, valid, ends, arg, rfl⟩ := later
    exact Written.cons (w := .longArg body p arg false)
      ⟨fun _ => nonempty, plain, known, takes⟩ ⟨words, tail, valid, ends, rfl⟩
  | attached name p arg plain known takes =>
    exact Written.cons (w := .longArg name p arg true) ⟨by simp, plain, known, takes⟩ later

theorem written_of_scan {args : List Text} {pending : Option Char}
    (clean : .bad ∉ (scan posix t pending args).1) : Written posix t pending args := by
  induction args generalizing pending with
  | nil =>
    cases pending with
    | none => exact ⟨[], .none, by simp, trivial, rfl⟩
    | some c => simp [scan] at clean
  | cons arg args ih =>
    cases pending with
    | some c =>
      simp only [scan, List.mem_cons, reduceCtorEq, false_or] at clean
      obtain ⟨words, tail, valid, ends, rfl⟩ := ih clean
      exact ⟨words, tail, valid, ends, arg, rfl⟩
    | none =>
      have operand : Word.Plain arg → Written posix t none (arg :: args) := by
        intro plain
        cases stops : posix with
        | true => exact ⟨[], .stopped arg args, by simp, ⟨rfl, plain⟩, rfl⟩
        | false =>
          subst stops
          simp only [scan, element_operand plain, Bool.false_eq_true, if_false] at clean
          exact Written.cons (w := .operand arg) ⟨rfl, plain⟩ (ih clean)
      cases arg with
      | nil => exact operand (Or.inr (by simp))
      | cons c cs =>
        by_cases dash : c = '-'
        · subst dash
          cases cs with
          | nil => exact operand (Or.inl rfl)
          | cons c cs =>
            by_cases double : c = '-'
            · subst double
              by_cases ended : cs = []
              · subst ended
                exact ⟨[], .marked args, by simp, trivial, rfl⟩
              · simp only [scan, element_long ended, List.mem_append, not_or] at clean
                exact (ih clean.2).named ended (named clean.1)
            · simp only [scan, element_cluster double, List.mem_append, not_or] at clean
              exact (ih clean.2).clustered double (clustered clean.1)
        · exact operand (Or.inr (by simpa using dash))

/-- The command lines that are read without an error are those that words are written as. -/
theorem scan_clean_iff {args : List Text} : .bad ∉ (scan posix t none args).1 ↔
    ∃ words tail, (∀ w ∈ words, Word.Valid posix t w) ∧ Tail.Valid posix tail ∧
      args = render words tail := by
  constructor
  · exact written_of_scan
  · rintro ⟨words, tail, valid, ends, rfl⟩
    rw [scan_render valid ends, List.mem_flatMap]
    rintro ⟨w, _, member⟩
    cases w <;> simp [Word.found] at member

end Scan

/-! ## Arguments are there where the table asks for them -/

def Table.Takes (t : Table) (c : Char) (takes : Bool) : Prop :=
  t.short c = some takes ∨ ∃ p ∈ t.long, p.val = c ∧ p.takesArg = takes

/-- Options found as the table has them, and the one that waits has an argument to come. -/
structure Table.Allows (t : Table) (found : List Found) (pending : Option Char) : Prop where
  found : ∀ c arg, .option c arg ∈ found → t.Takes c arg.isSome
  pending : ∀ c, pending = some c → t.Takes c true

section Takes

variable {posix : Bool} {t : Table}

theorem findLong_mem {long : List LongOption} {name : Text} {p : LongOption}
    (known : findLong long name = some p) : p ∈ long := by
  unfold findLong at known
  split at known
  · rename_i exact_ here
    obtain rfl := Option.some.inj known
    exact List.mem_of_find?_eq_some here
  · split at known
    · cases known
    · rename_i first others abbreviated
      obtain ⟨_, rfl⟩ := Option.ite_none_right_eq_some.mp known |>.imp_right Option.some.inj
      have member : first ∈ long.filter (fun q => name <+: q.name) := by
        rw [abbreviated]
        exact List.mem_cons_self
      exact (List.mem_filter.mp member).1

theorem cluster_allows (cs : Text) : t.Allows (cluster t cs).1 (cluster t cs).2 := by
  induction cs with
  | nil => exact ⟨by simp [cluster], by simp [cluster]⟩
  | cons c cs ih =>
    cases known : t.short c with
    | none =>
      simp only [cluster, known]
      exact ⟨by simpa using ih.found, ih.pending⟩
    | some takes =>
      cases takes with
      | false =>
        simp only [cluster, known]
        refine ⟨fun x arg member => ?_, ih.pending⟩
        rcases List.mem_cons.mp member with same | later
        · obtain ⟨rfl, rfl⟩ := Found.option.inj same
          exact Or.inl known
        · exact ih.found x arg later
      | true =>
        simp only [cluster, known]
        split
        · exact ⟨by simp, by rintro x same; obtain rfl := Option.some.inj same; exact Or.inl known⟩
        · refine ⟨fun x arg member => ?_, by simp⟩
          obtain ⟨rfl, rfl⟩ := Found.option.inj (List.mem_singleton.mp member)
          exact Or.inl known

theorem longOption_allows (body : Text) :
    t.Allows (longOption t body).1 (longOption t body).2 := by
  rw [longOption]
  cases known : findLong t.long (body.takeWhile (· ≠ '=')) with
  | none => exact ⟨by simp, by simp⟩
  | some p =>
    have allowed : t.Takes p.val p.takesArg := Or.inr ⟨p, findLong_mem known, rfl, rfl⟩
    cases body.dropWhile (· ≠ '=') with
    | nil =>
      cases takes : p.takesArg with
      | true =>
        rw [takes] at allowed
        simp only [takes, if_true]
        refine ⟨by simp, fun c same => ?_⟩
        obtain rfl := Option.some.inj same
        exact allowed
      | false =>
        rw [takes] at allowed
        simp only [takes, Bool.false_eq_true, if_false]
        refine ⟨fun c arg same => ?_, by simp⟩
        obtain ⟨rfl, rfl⟩ := Found.option.inj (List.mem_singleton.mp same)
        exact allowed
    | cons equals optarg =>
      cases takes : p.takesArg with
      | true =>
        rw [takes] at allowed
        simp only [takes, if_true]
        refine ⟨fun c arg same => ?_, by simp⟩
        obtain ⟨rfl, rfl⟩ := Found.option.inj (List.mem_singleton.mp same)
        exact allowed
      | false =>
        simp only [takes, Bool.false_eq_true, if_false]
        exact ⟨by simp, by simp⟩

theorem element_allows {arg : Text} {found : List Found} {pending : Option Char}
    (read : element t arg = .options found pending) : t.Allows found pending := by
  unfold element at read
  split at read
  · split at read
    · cases read
    · obtain ⟨rfl, rfl⟩ := Element.options.inj read
      exact longOption_allows _
  · obtain ⟨rfl, rfl⟩ := Element.options.inj read
    exact cluster_allows _
  · cases read

theorem scan_takes {args : List Text} {pending : Option Char}
    (takes : ∀ c, pending = some c → t.Takes c true) {c : Char} {arg : Option Text}
    (member : .option c arg ∈ (scan posix t pending args).1) : t.Takes c arg.isSome := by
  induction args generalizing pending with
  | nil =>
    cases pending with
    | none => simp [scan] at member
    | some x => simp [scan] at member
  | cons text args ih =>
    cases pending with
    | some x =>
      rcases List.mem_cons.mp member with same | later
      · obtain ⟨rfl, rfl⟩ := Found.option.inj same
        exact takes c rfl
      · exact ih (by simp) later
    | none =>
      cases read : element t text with
      | operand =>
        simp only [scan, read] at member
        split at member
        · cases member
        · exact ih (by simp) member
      | terminator => simp [scan, read] at member
      | options found pending =>
        have allows := element_allows read
        simp only [scan, read, List.mem_append] at member
        rcases member with here | later
        · exact allows.found c arg here
        · exact ih allows.pending later

end Takes

end Getopt
