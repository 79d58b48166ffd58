import Obstack.Cache
import Obstack.Lib.Getopt
import Obstack.Log
import Obstack.Threads

/-! get_options: the settings that a command line makes. The first option that is none of theirs
ends the program, whatever was set before it. -/
namespace Obstack
open CText Getopt

/-- What get_options writes. -/
structure Options where
  conf : Config := {}
  pid : Int := -1
  threadOnly : Bool := false
  logLevel : LogLevel := .INFO
  deriving DecidableEq, Repr

/-- usage_exit, with status 1, and exit(0) behind show_version. -/
inductive OptionExit where
  | usage
  | version
  deriving DecidableEq, Repr

/-- "?onavtl:s:d:w:k:" -/
def optstring : Str :=
  ['?', 'o', 'n', 'a', 'v', 't', 'l', ':', 's', ':', 'd', ':', 'w', ':', 'k', ':']

/-- How getopt_long looks a letter up: the first place it has, and whether ':' follows. -/
def shortOption : Str → Char → Option Bool
  | [], _ => none
  | x :: behind, c =>
    if x = c then if c = ':' ∨ c = ';' then none else some (behind.head? = some ':')
    else shortOption behind c

def longOptions : List LongOption := [
  ⟨['?'], false, '?'⟩,
  ⟨['h', 'e', 'l', 'p'], false, 'h'⟩,
  ⟨['v', 'e', 'r', 's', 'i', 'o', 'n'], false, 'v'⟩,
  ⟨['f', 'i', 'l', 'e'], true, 'f'⟩,
  ⟨['l', 'o', 'g', '_', 'l', 'e', 'v', 'e', 'l'], true, 'l'⟩,
  ⟨['n', 'o', '_', 'p', 'a', 'r', 's', 'e'], false, 'n'⟩,
  ⟨['a', 'g', 'g'], false, 'a'⟩,
  ⟨['s', 'y', 'm', 'b', 'o', 'l', '_', 'p', 'a', 't', 'h'], true, 's'⟩,
  ⟨['d', 'e', 'b', 'u', 'g', 'i', 'n', 'f', 'o', '_', 'p', 'a', 't', 'h'], true, 'd'⟩,
  ⟨['n', 'o', '_', 'l', 'i', 'n', 'e', 'n', 'o'], false, 'o'⟩,
  ⟨['v', 'e', 'r', 's', 'i', 'o', 'n'], false, 'v'⟩]

def optionTable : Table := { short := shortOption optstring, long := longOptions }

def logLevelFromStr (str : Str) : LogLevel :=
  let same (text : Str) : Bool := str.map Char.toLower = text.map Char.toLower
  if same ['D', 'E', 'B', 'U', 'G'] then .DEBUG
  else if same ['I', 'N', 'F', 'O'] then .INFO
  else if same ['W', 'A', 'R', 'N'] then .WARN
  else if same ['E', 'R', 'R', 'O', 'R'] then .ERROR
  else .INFO

/-- One turn of the loop. Options with an argument come with optarg set. -/
def getOption (o : Options) : Found → Except OptionExit Options
  | .option 'l' (some optarg) => .ok { o with logLevel := logLevelFromStr optarg }
  | .option 's' (some optarg) => .ok { o with conf := { o.conf with symbolPath := some optarg } }
  | .option 'd' (some optarg) => .ok { o with conf := { o.conf with debuginfoPath := some optarg } }
  | .option 'n' _ => .ok { o with conf := { o.conf with noParse := true } }
  | .option 'a' _ => .ok { o with conf := { o.conf with agg := true } }
  | .option 'o' _ => .ok { o with conf := { o.conf with noLineno := true } }
  | .option 'v' _ => .error .version
  | .option 't' _ => .ok { o with threadOnly := true }
  | _ => .error .usage

def getOptionsLoop : List Found → Options → Except OptionExit Options
  | [], o => .ok o
  | found :: rest, o =>
    match getOption o found with
    | .ok o => getOptionsLoop rest o
    | .error e => .error e

def setPid (operands : List Str) (o : Options) : Options :=
  match operands with
  | [] => o
  | pid :: _ => { o with pid := atoi pid }

/-- args is argv behind the name of the program; main asks for at least one of them. posix says
that POSIXLY_CORRECT is in the environment. -/
def getOptions (posix : Bool) (args : List Str) : Except OptionExit Options :=
  if args = [] then .error .usage
  else
    match getOptionsLoop (scan posix optionTable none args).1 {} with
    | .ok o => .ok (setPid (scan posix optionTable none args).2 o)
    | .error e => .error e

/-! ## The settings of a command line -/

/-- The letters that set something. -/
def Settles (c : Char) : Prop := c ∈ ['l', 's', 'd', 'n', 'a', 'o', 't']

instance (c : Char) : Decidable (Settles c) := inferInstanceAs (Decidable (_ ∈ _))

def argOf (c : Char) : Found → Option Str
  | .option x arg => if x = c then arg else none
  | .bad => none

/-- The argument of the last use of a letter. -/
def lastArg (c : Char) (found : List Found) : Option Str := found.reverse.findSome? (argOf c)

def given (c : Char) (found : List Found) : Bool :=
  found.any fun
    | .option x _ => x = c
    | .bad => false

/-- What the options found ask for, whatever their order: flags that are given, and of each path
and of the log level the last one. -/
def settings (found : List Found) : Options where
  conf :=
    { noParse := given 'n' found
      agg := given 'a' found
      symbolPath := lastArg 's' found
      debuginfoPath := lastArg 'd' found
      noLineno := given 'o' found }
  threadOnly := given 't' found
  logLevel := ((lastArg 'l' found).map logLevelFromStr).getD .INFO

/-- What a returned option is to getopt_long: its argument is there where one is required. -/
def Regular (found : Found) : Prop :=
  match found with
  | .option c arg => arg.isSome = decide (c ∈ ['l', 's', 'd', 'w', 'k', 'f'])
  | .bad => True

theorem lastArg_append (c : Char) (found : List Found) (x : Char) (arg : Option Str) :
    lastArg c (found ++ [.option x arg]) =
      if x = c then arg.or (lastArg c found) else lastArg c found := by
  rw [lastArg, List.reverse_append, List.reverse_singleton, List.singleton_append,
    List.findSome?_cons, argOf]
  split
  · rename_i last
    split at last
    · rename_i same
      rw [last, if_pos same, Option.some_or]
    · cases last
  · rename_i last
    split at last
    · rename_i same
      rw [last, if_pos same, Option.none_or]
      rfl
    · rename_i other
      rw [if_neg other]
      rfl

theorem given_append (c : Char) (found : List Found) (x : Char) (arg : Option Str) :
    given c (found ++ [.option x arg]) = (given c found || decide (x = c)) := by
  simp [given]

theorem regular_given {c : Char} {arg : Option Str} (regular : Regular (.option c arg))
    (takes : c ∈ ['l', 's', 'd', 'w', 'k', 'f']) : ∃ optarg, arg = some optarg := by
  apply Option.isSome_iff_exists.mp
  rw [show arg.isSome = _ from regular, decide_eq_true takes]

theorem getOption_settings (found : List Found) {f : Found} (regular : Regular f) :
    getOption (settings found) f = match f with
      | .option c arg =>
        if Settles c then .ok (settings (found ++ [.option c arg]))
        else if c = 'v' then .error .version else .error .usage
      | .bad => .error .usage := by
  unfold getOption
  split
  · simp [Settles, settings, lastArg_append, given_append]
  · simp [Settles, settings, lastArg_append, given_append]
  · simp [Settles, settings, lastArg_append, given_append]
  · simp [Settles, settings, lastArg_append, given_append]
  · simp [Settles, settings, lastArg_append, given_append]
  · simp [Settles, settings, lastArg_append, given_append]
  · simp [Settles]
  · simp [Settles, settings, lastArg_append, given_append]
  · rename_i l s d n a o v t
    cases f with
    | bad => rfl
    | option c arg =>
      have settled : ¬ Settles c := by
        intro member
        simp only [Settles, List.mem_cons, List.not_mem_nil, or_false] at member
        rcases member with rfl | rfl | rfl | rfl | rfl | rfl | rfl
        · obtain ⟨optarg, rfl⟩ := regular_given regular (by decide)
          exact l optarg rfl
        · obtain ⟨optarg, rfl⟩ := regular_given regular (by decide)
          exact s optarg rfl
        · obtain ⟨optarg, rfl⟩ := regular_given regular (by decide)
          exact d optarg rfl
        · exact n arg rfl
        · exact a arg rfl
        · exact o arg rfl
        · exact t arg rfl
      have version : c ≠ 'v' := by
        rintro rfl
        exact v arg rfl
      simp only [if_neg settled, if_neg version]

def settling : Found → Bool
  | .option c _ => decide (Settles c)
  | .bad => false

/-- How the program ends at an option that sets nothing. -/
def exitOf : Found → OptionExit
  | .option 'v' _ => .version
  | _ => .usage

theorem exitOf_option (c : Char) (arg : Option Str) :
    exitOf (.option c arg) = if c = 'v' then .version else .usage := by
  unfold exitOf
  split
  · simp_all
  · rename_i other
    have different : c ≠ 'v' := by
      rintro rfl
      exact other arg rfl
    rw [if_neg different]

theorem getOptionsLoop_eq {more : List Found} (regular : ∀ f ∈ more, Regular f)
    (found : List Found) :
    getOptionsLoop more (settings found) =
      match more.find? (fun f => !settling f) with
      | none => .ok (settings (found ++ more))
      | some f => .error (exitOf f) := by
  induction more generalizing found with
  | nil => simp [getOptionsLoop]
  | cons f more ih =>
    have turn := getOption_settings found (regular f List.mem_cons_self)
    have later := ih fun x member => regular x (List.mem_cons_of_mem f member)
    cases f with
    | bad =>
      simp only at turn
      simp [getOptionsLoop, turn, settling, exitOf]
    | option c arg =>
      simp only at turn
      by_cases settles : Settles c
      · rw [if_pos settles] at turn
        simp only [getOptionsLoop, turn, later, List.find?_cons, settling, decide_eq_true settles,
          Bool.not_true, List.append_assoc, List.singleton_append]
      · have stops : (Found.option c arg :: more).find? (fun f => !settling f) =
            some (.option c arg) := List.find?_cons_of_pos (by simp [settling, settles])
        rw [if_neg settles] at turn
        rw [stops, getOptionsLoop, turn]
        by_cases version : c = 'v'
        · simp [exitOf_option, version]
        · simp [exitOf_option, version]

theorem settings_nil : settings [] = {} := rfl

theorem shortOption_mem {optstring : Str} {c : Char} {takes : Bool}
    (known : shortOption optstring c = some takes) : c ∈ optstring := by
  induction optstring with
  | nil => cases known
  | cons x behind ih =>
    rw [shortOption] at known
    split at known
    · rename_i same
      exact same ▸ List.mem_cons_self
    · exact List.mem_cons_of_mem x (ih known)

theorem optionTable_takes {c : Char} {takes : Bool} (allowed : optionTable.Takes c takes) :
    takes = decide (c ∈ ['l', 's', 'd', 'w', 'k', 'f']) := by
  rcases allowed with short | ⟨p, member, rfl, rfl⟩
  · have letters : optstring.all (fun x => (shortOption optstring x).all
        fun b => b = decide (x ∈ ['l', 's', 'd', 'w', 'k', 'f'])) = true := by decide
    have letter := List.all_eq_true.mp letters c (shortOption_mem short)
    rw [show shortOption optstring c = some takes from short] at letter
    exact of_decide_eq_true letter
  · have entries : longOptions.all (fun p => p.takesArg = decide
        (p.val ∈ ['l', 's', 'd', 'w', 'k', 'f'])) = true := by decide
    exact of_decide_eq_true (List.all_eq_true.mp entries p member)

section Accepted

variable {posix : Bool}

theorem scan_regular {args : List Str} {f : Found}
    (member : f ∈ (scan posix optionTable none args).1) : Regular f := by
  cases f with
  | bad => trivial
  | option c arg => exact optionTable_takes (scan_takes (by simp) member)

theorem getOptions_eq {args : List Str} (given : args ≠ []) :
    getOptions posix args =
      match (scan posix optionTable none args).1.find? (fun f => !settling f) with
      | none => .ok (setPid (scan posix optionTable none args).2
          (settings (scan posix optionTable none args).1))
      | some f => .error (exitOf f) := by
  have regular : ∀ f ∈ (scan posix optionTable none args).1, Regular f := fun _ => scan_regular
  have loop := getOptionsLoop_eq regular []
  rw [List.nil_append] at loop
  rw [getOptions, if_neg given, ← settings_nil, loop]
  split
  · rename_i o same
    split at same
    · obtain rfl := Except.ok.inj same
      rfl
    · cases same
  · rename_i e same
    split at same
    · cases same
    · obtain rfl := Except.error.inj same
      rfl

/-- The settings that written words make, and the pid. -/
def writtenOptions (words : List Word) (tail : Tail) : Options :=
  setPid (words.flatMap Word.operands ++ tail.operands) (settings (words.flatMap Word.found))

theorem settling_words {words : List Word} :
    (words.flatMap Word.found).find? (fun f => !settling f) = none ↔
      ∀ c arg, .option c arg ∈ words.flatMap Word.found → Settles c := by
  rw [List.find?_eq_none]
  constructor
  · intro all c arg member
    simpa [settling] using all _ member
  · intro settles f member
    cases f with
    | bad =>
      obtain ⟨w, _, inside⟩ := List.mem_flatMap.mp member
      cases w <;> simp [Word.found] at inside
    | option c arg => simpa [settling] using settles c arg member

theorem getOptions_render {words : List Word} {tail : Tail}
    (valid : ∀ w ∈ words, Word.Valid posix optionTable w) (ends : Tail.Valid posix tail)
    (nonempty : render words tail ≠ []) (o : Options) :
    getOptions posix (render words tail) = .ok o ↔
      (∀ c arg, .option c arg ∈ words.flatMap Word.found → Settles c) ∧
        o = writtenOptions words tail := by
  rw [getOptions_eq nonempty, scan_render valid ends, ← settling_words]
  constructor
  · intro accepted
    split at accepted
    · rename_i all
      exact ⟨all, (Except.ok.inj accepted).symm⟩
    · cases accepted
  · rintro ⟨all, rfl⟩
    rw [all]
    rfl

end Accepted

/-- A command line is accepted exactly when it is written with options that set something, in
any of their forms and in any order between the operands, or in front of them where POSIXLY_CORRECT
is set: then each flag is set that is given, each path and the log level are the last ones given,
and the first operand is the pid. -/
theorem getOptions_accepts_iff (posix : Bool) (args : List Str) (o : Options) :
    getOptions posix args = .ok o ↔
      args ≠ [] ∧ ∃ words tail, (∀ w ∈ words, Word.Valid posix optionTable w) ∧
        Tail.Valid posix tail ∧ args = render words tail ∧
        (∀ c arg, .option c arg ∈ words.flatMap Word.found → Settles c) ∧
        o = writtenOptions words tail := by
  constructor
  · intro accepted
    have nonempty : args ≠ [] := by
      rintro rfl
      cases accepted
    have clean : .bad ∉ (scan posix optionTable none args).1 := by
      intro member
      rw [getOptions_eq nonempty] at accepted
      split at accepted
      · rename_i all
        rw [List.find?_eq_none] at all
        exact absurd (all .bad member) (by simp [settling])
      · cases accepted
    obtain ⟨words, tail, valid, ends, rfl⟩ := scan_clean_iff.mp clean
    exact ⟨nonempty, words, tail, valid, ends, rfl,
      (getOptions_render valid ends nonempty o).mp accepted⟩
  · rintro ⟨nonempty, words, tail, valid, ends, rfl, settled⟩
    exact (getOptions_render valid ends nonempty o).mpr settled

/-! ## The order of options -/

theorem lastArg_eq (c : Char) (found : List Found) :
    lastArg c found = (found.filterMap (argOf c)).getLast? := by
  rw [lastArg, ← List.head?_filterMap, List.filterMap_reverse, List.head?_reverse]

theorem lastArg_perm {c : Char} {found found' : List Found} (perm : found.Perm found')
    (once : (found.filterMap (argOf c)).length ≤ 1) : lastArg c found = lastArg c found' := by
  have moved := perm.filterMap (argOf c)
  rw [lastArg_eq, lastArg_eq]
  generalize found.filterMap (argOf c) = args at once moved
  match args, once with
  | [], _ => rw [List.nil_perm.mp moved]
  | [arg], _ => rw [List.perm_singleton.mp moved.symm]

theorem settings_perm {found found' : List Found} (perm : found.Perm found')
    (once : ∀ c, (found.filterMap (argOf c)).length ≤ 1) : settings found = settings found' := by
  have flags : ∀ c, given c found = given c found' := fun c => perm.any_eq
  have args : ∀ c, lastArg c found = lastArg c found' := fun c => lastArg_perm perm (once c)
  simp only [settings, flags, args]

theorem render_ne_nil {w : Word} {words : List Word} {tail : Tail} (member : w ∈ words) :
    render words tail ≠ [] := by
  intro empty
  have none_ := List.flatMap_eq_nil_iff.mp (List.append_eq_nil_iff.mp empty).1 w member
  cases w with
  | short cs c arg attached => cases attached <;> cases none_
  | longArg name p arg attached => cases attached <;> cases none_
  | operand text => cases none_
  | flags cs => cases none_
  | long name p => cases none_

/-- Options may come in any order, before, between and behind the operands, as long as none with
an argument is repeated; where POSIXLY_CORRECT is set, in any order before the first operand. -/
theorem getOptions_reordered (posix : Bool) {words words' : List Word} {tail : Tail} {o : Options}
    (valid : ∀ w ∈ words, Word.Valid posix optionTable w) (ends : Tail.Valid posix tail)
    (perm : words.Perm words')
    (once : ∀ c, ((words.flatMap Word.found).filterMap (argOf c)).length ≤ 1)
    (operands : words'.flatMap Word.operands = words.flatMap Word.operands)
    (accepted : getOptions posix (render words tail) = .ok o) :
    getOptions posix (render words' tail) = .ok o := by
  cases words with
  | nil => exact List.nil_perm.mp perm ▸ accepted
  | cons w words =>
    have found := perm.flatMap_right Word.found
    have moved := perm.mem_iff.mp (List.mem_cons_self (a := w))
    have valid' : ∀ x ∈ words', Word.Valid posix optionTable x := fun x member =>
      valid x (perm.mem_iff.mpr member)
    obtain ⟨settles, rfl⟩ :=
      (getOptions_render valid ends (render_ne_nil List.mem_cons_self) o).mp accepted
    rw [getOptions_render valid' ends (render_ne_nil moved)]
    refine ⟨fun c arg member => settles c arg (found.mem_iff.mpr member), ?_⟩
    rw [writtenOptions, writtenOptions, operands, settings_perm found once]

/-- obstack -a --sym /x 7 -/
def plainWords : List Word := [
  .flags ['a'],
  .longArg ['s', 'y', 'm']
    ⟨['s', 'y', 'm', 'b', 'o', 'l', '_', 'p', 'a', 't', 'h'], true, 's'⟩ ['/', 'x'] false,
  .operand ['7']]

theorem plainWords_valid : ∀ w ∈ plainWords, Word.Valid false optionTable w := by
  simp only [plainWords, List.forall_mem_cons, Word.Valid, Word.Flags]
  exact ⟨⟨by simp, by simp, by decide, by simp⟩, ⟨by simp, by simp, by decide, trivial⟩,
    ⟨trivial, Or.inr (by decide)⟩, by simp⟩

theorem getOptions_reordered_pid_first :
    getOptions false (render [plainWords[2], plainWords[1], plainWords[0]] .none) =
      .ok { conf := { agg := true, symbolPath := some ['/', 'x'] }, pid := 7 } :=
  getOptions_reordered false plainWords_valid trivial (List.reverse_perm plainWords).symm
    (by
      intro c
      simp only [plainWords, List.flatMap_cons, List.flatMap_nil, Word.found, List.map_cons,
        List.map_nil, List.append_nil, List.cons_append, List.nil_append, List.filterMap_cons,
        List.filterMap_nil, argOf]
      split <;> split <;> simp_all)
    rfl (by decide)

/-- Behind the pid they are not read where POSIXLY_CORRECT is set. -/
example : getOptions true (render [plainWords[2], plainWords[1], plainWords[0]] .none) =
    .ok { pid := 7 } := by decide

/-- The long form of -t that usage_exit prints is not in long_options. -/
example : getOptions false [['-', '-', 't', 'h', 'r', 'e', 'a', 'd', '_', 'o', 'n', 'l', 'y'],
    ['7']] = .error .usage := by decide

end Obstack
