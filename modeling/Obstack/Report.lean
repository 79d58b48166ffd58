import Obstack.Groups
import Obstack.Lib.Records

/-! The report of stack_it in parsing mode as one expression. Each frame is printed from its
address alone, so that the orders in which addresses and files are gone through leave no trace;
one debug file that cannot be used takes the whole report away. -/
namespace Obstack
open CText Sorted Assoc Loops BFDCache Records

/-- Group by group, or thread by thread. -/
def reportText (env : StackEnv) (conf : Config) (c : BFDCache) (bts : List Bt) : Str :=
  if conf.agg then (reportGroups env bts).flatMap (groupText env.tty (located env conf c))
  else bts.flatMap (threadText env.tty (located env conf c))

theorem framesText_congr {tty : Bool} {locs locs' : ULong → Option Location} {addrs : List ULong}
    (same : ∀ addr ∈ addrs, locs addr = locs' addr) :
    framesText tty locs addrs = framesText tty locs' addrs := by
  apply List.flatMap_congr
  rintro ⟨addr, frame⟩ member
  simp only [same addr (List.fst_mem_of_mem_zipIdx member)]

theorem reportGroups_mem {env : StackEnv} {bts group : List Bt}
    (member : group ∈ reportGroups env bts) {bt : Bt} (inside : bt ∈ group) : bt ∈ bts := by
  obtain ⟨it, _, rfl⟩ := List.mem_map.mp member
  exact (mem_keyed.mp inside).1

theorem genResult_text (env : StackEnv) (conf : Config) {c : BFDCache} {os : ObStack}
    (answers : ∀ bt ∈ os.bts, ∀ addr ∈ bt.addrs, find addr os.locCache = located env conf c addr) :
    genResult env conf os = reportText env conf c os.bts := by
  cases agg : conf.agg with
  | true =>
    rw [genResult_groups env agg, reportText, if_pos agg]
    apply List.flatMap_congr
    intro group printed
    have same : ∀ addr ∈ (group.head?.map Bt.addrs).getD [],
        find addr os.locCache = located env conf c addr := by
      intro addr haddr
      cases first : group.head? with
      | none => simp [first] at haddr
      | some bt =>
        rw [first] at haddr
        exact answers bt (reportGroups_mem printed (List.mem_of_head? first)) addr haddr
    simp only [groupText, framesText_congr same]
  | false =>
    rw [genResult_threads env agg, reportText, agg, if_neg (by decide)]
    apply List.flatMap_congr
    intro bt hbt
    simp only [threadText, framesText_congr (answers bt hbt)]

section Stacks

variable (env : StackEnv) (conf : Config) (parse : conf.noParse = false) (pid : Nat) (bts : List Bt)
include parse

theorem stackIt_usable
    (usable : FilesUsable env conf (loadedCache env conf pid) (bts.flatMap Bt.addrs)) :
    stackIt env conf { pid, bts } = .ok (reportText env conf (loadedCache env conf pid) bts) := by
  obtain ⟨os, parsed, kept, _, answers⟩ := stackItParse_usable env conf parse pid bts usable
  rw [← kept] at answers
  rw [stackIt, parse, if_neg (by decide), parsed, ← kept, ← genResult_text env conf answers]
  rfl

theorem stackIt_unusable
    (unusable : ¬ FilesUsable env conf (loadedCache env conf pid) (bts.flatMap Bt.addrs)) :
    ∃ d, stackIt env conf { pid, bts } = .error d ∧ d.defined = true := by
  obtain ⟨d, died, defined⟩ := stackItParse_unusable env conf parse pid bts unusable
  refine ⟨d, ?_, defined⟩
  rw [stackIt, parse, if_neg (by decide), died]
  rfl

end Stacks

/-- What a line of -n tells. -/
def noParseRecord (c : BFDCache) (bt : Bt) : Int × Str × List ULong :=
  (bt.tid, bt.tname, bt.addrs.map (noParseValue c))

theorem dec_injective {m n : Nat} (same : dec m = dec n) : m = n := by
  have values := congrArg (valueOf 10) same
  rwa [dec, dec, valueOf_toDigits (by decide) (by decide),
    valueOf_toDigits (by decide) (by decide)] at values

theorem dec_solid {n : Nat} {c : Char} (other : isDigitOf 10 c = false) : c ∉ dec n := by
  intro member
  have digit : isDigitOf 10 c = true := toDigits_isDigit (by decide) (by decide) n c member
  rw [other] at digit
  contradiction

theorem intText_injective {i j : Int} (same : intText i = intText j) : i = j := by
  have minus : ∀ n, '-' ∉ dec n := fun n => dec_solid (by decide)
  cases i with
  | ofNat m =>
    cases j with
    | ofNat n => rw [dec_injective same]
    | negSucc n =>
      have sign : '-' ∈ dec m := by
        change dec m = '-' :: dec (n + 1) at same
        simp [same]
      exact absurd sign (minus m)
  | negSucc m =>
    cases j with
    | ofNat n =>
      have sign : '-' ∈ dec n := by
        change '-' :: dec (m + 1) = dec n at same
        simp [← same]
      exact absurd sign (minus n)
    | negSucc n =>
      have digits := dec_injective (List.cons.inj same).2
      rw [Nat.succ.inj digits]

theorem intText_solid {i : Int} {c : Char} (other : isDigitOf 10 c = false) (sign : c ≠ '-') :
    c ∉ intText i := by
  cases i with
  | ofNat n => exact dec_solid other
  | negSucc n => simp [intText, sign, dec_solid other]

/-- The escape sequences around a text. -/
def frontEscape (tty : Bool) : Str := if tty then colorCyan else []
def backEscape (tty : Bool) : Str := if tty then colorReset else []

theorem cPrintf_eq (tty : Bool) (text : Str) :
    cPrintf tty colorCyan text = frontEscape tty ++ text ++ backEscape tty := by
  cases tty with
  | false => simp [cPrintf, frontEscape, backEscape]
  | true => rfl

/-- Neither a blank, a comma nor a newline is in an escape sequence. -/
theorem escapes_solid (tty : Bool) {c : Char} (mark : c ∈ [' ', ',', '\n']) :
    c ∉ frontEscape tty ∧ c ∉ backEscape tty := by
  have all : [' ', ',', '\n'].all (fun x => x ∉ frontEscape tty ∧ x ∉ backEscape tty) = true := by
    cases tty <;> decide
  exact of_decide_eq_true (List.all_eq_true.mp all c mark)

def valueText (tty : Bool) (value : ULong) : Str := ['0', 'x'] ++ hex value.toNat ++ backEscape tty

def valuesText (tty : Bool) (values : List ULong) : Str :=
  values.flatMap fun value => frontEscape tty ++ ' ' :: valueText tty value

/-- A line up to its last comma, and up to its newline. -/
def headText (tty : Bool) (r : Int × Str × List ULong) : Str :=
  frontEscape tty ++ (['t', 'i', 'd', ':', ' '] ++ intText r.1 ++
    ',' :: ([' ', 't', 'n', 'a', 'm', 'e', ':', ' '] ++ r.2.1))

def lineText (tty : Bool) (r : Int × Str × List ULong) : Str :=
  headText tty r ++
    ',' :: ([' ', 'b', 't', ':'] ++ backEscape tty ++ valuesText tty r.2.2 ++ frontEscape tty)

theorem printNoParse_eq (tty : Bool) (c : BFDCache) (bt : Bt) :
    printNoParse tty c bt = lineText tty (noParseRecord c bt) ++ '\n' :: backEscape tty := by
  simp only [printNoParse, lineText, headText, valuesText, valueText, noParseRecord, cPrintf_eq,
    List.flatMap_map]
  simp only [List.append_assoc, List.cons_append, List.nil_append]

theorem valueText_solid (tty : Bool) (value : ULong) {c : Char} (mark : c ∈ [' ', ',', '\n']) :
    c ∉ valueText tty value := by
  have digit : isDigitOf 16 c = false ∧ c ≠ '0' ∧ c ≠ 'x' := by
    simp only [List.mem_cons, List.not_mem_nil, or_false] at mark
    rcases mark with rfl | rfl | rfl <;> decide
  obtain ⟨other, zero, letter⟩ := digit
  simp [valueText, zero, letter, hex_solid other, (escapes_solid tty mark).2]

theorem valueText_injective {tty : Bool} {v v' : ULong}
    (same : valueText tty v = valueText tty v') : v = v' := by
  have digits := List.append_cancel_left (List.append_cancel_right same)
  exact BitVec.eq_of_toNat_eq (hex_injective digits)

theorem valuesText_solid (tty : Bool) (values : List ULong) {c : Char} (mark : c ∈ [',', '\n']) :
    c ∉ valuesText tty values := by
  have other : c ∈ [' ', ',', '\n'] ∧ c ≠ ' ' := by
    simp only [List.mem_cons, List.not_mem_nil, or_false] at mark
    rcases mark with rfl | rfl <;> decide
  simp only [valuesText, List.mem_flatMap, not_exists, not_and]
  intro value _
  simp [other.2, (escapes_solid tty other.1).1, valueText_solid tty value other.1]

theorem valuesText_injective {tty : Bool} {values values' : List ULong}
    (same : valuesText tty values = valuesText tty values') : values = values' := by
  have blank : ' ' ∈ [' ', ',', '\n'] := by decide
  have texts := flatMap_leading_inj (escapes_solid tty blank).1
    (fun v _ => valueText_solid tty v blank) (fun v _ => valueText_solid tty v blank) same
  exact List.map_injective_iff.mpr (fun _ _ => valueText_injective) texts

theorem lineText_solid {tty : Bool} {r : Int × Str × List ULong} (named : '\n' ∉ r.2.1) :
    '\n' ∉ lineText tty r := by
  have escapes := escapes_solid tty (c := '\n') (by decide)
  have values := valuesText_solid tty r.2.2 (c := '\n') (by decide)
  have tid : '\n' ∉ intText r.1 := intText_solid (by decide) (by decide)
  simp [lineText, headText, escapes, values, tid, named]

/-- The last comma stands before the values, and the first one behind the tid: a name may hold
what it likes. -/
theorem lineText_injective {tty : Bool} {r r' : Int × Str × List ULong}
    (same : lineText tty r = lineText tty r') : r = r' := by
  have comma : ∀ values, ',' ∉ [' ', 'b', 't', ':'] ++ backEscape tty ++ valuesText tty values ++
      frontEscape tty := by
    intro values
    have escapes := escapes_solid tty (c := ',') (by decide)
    have solid := valuesText_solid tty values (c := ',') (by decide)
    simp [escapes, solid]
  have tids : ∀ i, ',' ∉ ['t', 'i', 'd', ':', ' '] ++ intText i := by
    intro i
    have solid : ',' ∉ intText i := intText_solid (by decide) (by decide)
    simp [solid]
  obtain ⟨heads, tails⟩ := append_last_mark_inj (comma r.2.2) (comma r'.2.2) same
  obtain ⟨numbers, names⟩ :=
    append_mark_inj (tids r.1) (tids r'.1) (List.append_cancel_left heads)
  have tid := intText_injective (List.append_cancel_left numbers)
  have tname := List.append_cancel_left names
  have values := valuesText_injective
    (List.append_cancel_left (List.append_cancel_right tails))
  exact Prod.ext tid (Prod.ext tname values)

/-- Two outputs of -n are the same text exactly when they tell of the same threads, under the same
names, with the same values in the same order. -/
theorem noParse_unambiguous (tty : Bool) (c c' : BFDCache) {bts bts' : List Bt}
    (named : ∀ bt ∈ bts, '\n' ∉ bt.tname) (named' : ∀ bt ∈ bts', '\n' ∉ bt.tname) :
    bts.flatMap (printNoParse tty c) = bts'.flatMap (printNoParse tty c') ↔
      bts.map (noParseRecord c) = bts'.map (noParseRecord c') := by
  have lines : ∀ (c : BFDCache) (bts : List Bt), bts.flatMap (printNoParse tty c) =
      (bts.map (noParseRecord c)).flatMap (fun r => lineText tty r ++ '\n' :: backEscape tty) := by
    intro c bts
    rw [List.flatMap_map]
    exact List.flatMap_congr fun bt _ => printNoParse_eq tty c bt
  have solid : ∀ {c : BFDCache} {bts : List Bt}, (∀ bt ∈ bts, '\n' ∉ bt.tname) →
      ∀ r ∈ bts.map (noParseRecord c), '\n' ∉ lineText tty r := by
    intro c bts named r member
    obtain ⟨bt, there, rfl⟩ := List.mem_map.mp member
    exact lineText_solid (named bt there)
  rw [lines, lines]
  constructor
  · intro same
    have texts := flatMap_marked_inj (solid named) (solid named') same
    exact List.map_injective_iff.mpr (fun _ _ => lineText_injective) texts
  · intro same
    rw [same]

/-- A name that looks like the end of a line. -/
def commaBt : Bt := { tid := 7, tname := ['a', ',', ' ', 'b', 't', ':'], addrs := [0x10], bt := [] }

theorem noParse_unambiguous_commas :
    [commaBt].flatMap (printNoParse true {}) =
        [{ commaBt with tname := ['a'] }].flatMap (printNoParse true {}) ↔
      [commaBt].map (noParseRecord {}) =
        [{ commaBt with tname := ['a'] }].map (noParseRecord {}) :=
  noParse_unambiguous true {} {} (by decide) (by decide)

end Obstack
