import Obstack.Aggregate

/-! The report as text, and the aggregated report as a partition of the backtraces. Each group is
printed from the list of its members: a header with their thread ids and names, and the frames of
the first. -/
namespace Obstack
open CText Assoc

/-! ## The text of a report -/

/-- On a terminal a text stands between the escape of its color and the one that resets it. -/
def yellow (tty : Bool) (text : Str) : Str :=
  if tty then ['\x1b', '[', '3', '3', 'm'] ++ text ++ ['\x1b', '[', '0', 'm'] else text

def cyan (tty : Bool) (text : Str) : Str :=
  if tty then ['\x1b', '[', '3', '6', 'm'] ++ text ++ ['\x1b', '[', '0', 'm'] else text

def signedDecimal (i : Int) : Str := (if i < 0 then ['-'] else []) ++ dec i.natAbs

/-- A number in at least four columns. -/
def numberText (n : Nat) : Str :=
  ['#'] ++ dec n ++ List.replicate (4 - (dec n).length) ' ' ++ [' ']

/-- Sixteen digits. -/
def addressText (addr : ULong) : Str :=
  ['0', 'x'] ++ List.replicate (16 - (hex addr.toNat).length) '0' ++ hex addr.toNat

/-- The source line where it is known, else the file, else nothing. -/
def placeText : Option Location → Str
  | none => ['?', '?', '?']
  | some loc =>
    loc.function ++
      if loc.filename = [] ∨ loc.filename = ['0'] ∨ loc.filename = ['(', 'n', 'u', 'l', 'l', ')'] ∨
          loc.line = 0 then
        [' ', 'f', 'r', 'o', 'm', ' '] ++ loc.file
      else [' ', 'a', 't', ' '] ++ loc.filename ++ [':'] ++ signedDecimal loc.line.toInt

/-- One line for each frame, numbered from 0 on. -/
def framesText (tty : Bool) (locations : ULong → Option Location) (addrs : List ULong) : Str :=
  addrs.zipIdx.flatMap fun (addr, i) =>
    yellow tty (numberText i) ++
      cyan tty (addressText addr ++ [' ', 'i', 'n', ' '] ++ placeText (locations addr) ++ ['\n'])

/-- Id and name of the i-th member. -/
def memberText (tty : Bool) (bt : Bt) (i : Nat) : Str :=
  yellow tty ((if i = 0 then [] else [',', ' ']) ++ signedDecimal bt.tid ++ ['-'] ++ bt.tname)

def groupText (tty : Bool) (locations : ULong → Option Location) (group : List Bt) : Str :=
  yellow tty ['T', 'h', 'r', 'e', 'a', 'd', 's', ' ', '('] ++
    group.zipIdx.flatMap (fun (bt, i) => memberText tty bt i) ++ yellow tty [')', '\n'] ++
    framesText tty locations ((group.head?.map Bt.addrs).getD [])

def threadText (tty : Bool) (locations : ULong → Option Location) (bt : Bt) : Str :=
  yellow tty (['T', 'h', 'r', 'e', 'a', 'd', ' '] ++ signedDecimal bt.tid ++ [' ', '('] ++ bt.tname ++
    [')', '\n']) ++ framesText tty locations bt.addrs

section Text

variable (tty : Bool)

theorem cPrintf_yellow : cPrintf tty colorYellow = yellow tty := rfl

theorem cPrintf_cyan : cPrintf tty colorCyan = cyan tty := rfl

theorem intText_eq (i : Int) : intText i = signedDecimal i := by
  cases i with
  | ofNat n => rfl
  | negSucc n => simp [intText, signedDecimal, Int.negSucc_lt_zero]

theorem fnValid_iff (loc : Location) : loc.fnValid = true ↔
    ¬ (loc.filename = [] ∨ loc.filename = ['0'] ∨
      loc.filename = ['(', 'n', 'u', 'l', 'l', ')'] ∨ loc.line = 0) := by
  have some : 0 < loc.filename.length ↔ ¬ loc.filename = [] := List.length_pos_iff
  have positive : 0 < loc.line ↔ ¬ loc.line = 0 := BitVec.pos_iff_ne_zero _
  simp only [Location.fnValid, Bool.and_eq_true, decide_eq_true_eq, some, positive, not_or,
    and_assoc]

theorem locationText_eq (addr : ULong) (loc : Option Location) : locationText addr loc =
    addressText addr ++ [' ', 'i', 'n', ' '] ++ placeText loc ++ ['\n'] := by
  cases loc with
  | none => simp [locationText, addressText, placeText, List.leftpad]
  | some loc =>
    have address : ['0', 'x'] ++ (hex addr.toNat).leftpad 16 '0' = addressText addr := by
      simp [addressText, List.leftpad]
    simp only [locationText, placeText, address]
    cases valid : loc.fnValid with
    | true =>
      rw [if_pos rfl, if_neg ((fnValid_iff loc).mp valid), intText_eq]
      simp only [List.append_assoc]
    | false =>
      have blank := not_imp_comm.mp (fnValid_iff loc).mpr (by simp [valid])
      rw [if_neg (by decide), if_pos blank]
      simp only [List.append_assoc]

theorem printStackFrames_eq (locCache : List (ULong × Location)) (addrs : List ULong) :
    printStackFrames tty locCache addrs = framesText tty (fun addr => find addr locCache) addrs := by
  have number (n : Nat) : '#' :: (dec n).rightpad 4 ' ' ++ [' '] = numberText n := by
    simp [numberText, List.rightpad]
  simp only [printStackFrames, framesText, cPrintf_yellow, cPrintf_cyan, number, locationText_eq]

theorem printThread_eq (locCache : List (ULong × Location)) (bt : Bt) :
    printThread tty locCache bt = threadText tty (fun addr => find addr locCache) bt := by
  simp only [printThread, threadText, cPrintf_yellow, intText_eq, printStackFrames_eq]

theorem printGroup_eq (locCache : List (ULong × Location)) (group : List Bt) :
    printGroup tty locCache (collected group) =
      groupText tty (fun addr => find addr locCache) group := by
  have pairs : (group.map Bt.tid).zip (group.map Bt.tname) =
      group.map (fun bt => (bt.tid, bt.tname)) := by
    rw [List.zip_map', List.map_congr_left]
    intro bt _
    rfl
  unfold printGroup groupText collected
  simp only [pairs, List.zipIdx_map, List.flatMap_map, cPrintf_yellow, intText_eq,
    printStackFrames_eq]
  rfl

end Text

/-! ## Groups -/

/-- Groups that lose, repeat and mix up no backtrace. -/
structure Partition (groups : List (List Bt)) (bts : List Bt) : Prop where
  once : groups.flatten.Perm bts
  nonempty : ∀ group ∈ groups, group ≠ []
  inOrder : ∀ group ∈ groups, ∀ a ∈ group, group = bts.filter (fun b => b.bt = a.bt)
  together : ∀ a ∈ bts, ∀ b ∈ bts, (∃ group ∈ groups, a ∈ group ∧ b ∈ group) ↔ a.bt = b.bt
  count : groups.length = (bts.map Bt.bt).dedup.length
  sizes : groups.Pairwise (fun first second => second.length ≤ first.length)

def keyed (bts : List Bt) (key : Str) : List Bt := bts.filter (fun bt => bt.bt = key)

theorem mem_keyed {bts : List Bt} {key : Str} {bt : Bt} :
    bt ∈ keyed bts key ↔ bt ∈ bts ∧ bt.bt = key := by simp [keyed]

theorem partition_keyed {bts : List Bt} {keys : List Str} (same : keys.Perm (groupKeys Bt.bt bts))
    (sizes : (keys.map (keyed bts)).Pairwise (fun first second => second.length ≤ first.length)) :
    Partition (keys.map (keyed bts)) bts := by
  have nodup : keys.Nodup := same.nodup_iff.mpr (nodup_groupKeys bts)
  have present (key : Str) : key ∈ keys ↔ ∃ bt ∈ bts, bt.bt = key := by
    rw [same.mem_iff, mem_groupKeys]
  constructor
  case once =>
    rw [← List.flatMap_def]
    exact groups_perm keys nodup bts (fun bt hbt => (present _).mpr ⟨bt, hbt, rfl⟩)
  case nonempty =>
    intro group hgroup
    obtain ⟨key, hkey, rfl⟩ := List.mem_map.mp hgroup
    obtain ⟨bt, hbt, keyedBt⟩ := (present key).mp hkey
    exact List.ne_nil_of_mem (mem_keyed.mpr ⟨hbt, keyedBt⟩)
  case inOrder =>
    intro group hgroup a ha
    obtain ⟨key, _, rfl⟩ := List.mem_map.mp hgroup
    rw [(mem_keyed.mp ha).2]
    rfl
  case together =>
    intro a ha b hb
    constructor
    · rintro ⟨group, hgroup, inA, inB⟩
      obtain ⟨key, _, rfl⟩ := List.mem_map.mp hgroup
      exact (mem_keyed.mp inA).2.trans (mem_keyed.mp inB).2.symm
    · intro equal
      exact ⟨_, List.mem_map_of_mem ((present _).mpr ⟨a, ha, rfl⟩), mem_keyed.mpr ⟨ha, rfl⟩,
        mem_keyed.mpr ⟨hb, equal.symm⟩⟩
  case count =>
    rw [List.length_map]
    refine ((List.perm_ext_iff_of_nodup nodup (List.nodup_dedup _)).mpr ?_).length_eq
    intro key
    rw [present, List.mem_dedup, List.mem_map]
  case sizes => exact sizes

/-- The groups in the order in which they are printed: the larger before the smaller, and those of
one size as bt_map and std::sort leave them. -/
def reportGroups (env : StackEnv) (bts : List Bt) : List (List Bt) :=
  (sortedBts env bts).map fun it => keyed bts it.1

section Printed

variable (env : StackEnv) (bts : List Bt)

theorem sortedBts_value {it : Str × Value} (member : it ∈ sortedBts env bts) :
    it.2 = collected (keyed bts it.1) := by
  have stored := (sortedBts_perm env bts).subset member
  rw [btMap_eq] at stored
  obtain ⟨key, _, rfl⟩ := List.mem_map.mp stored
  rfl

theorem reportGroups_partition : Partition (reportGroups env bts) bts := by
  have keys : ((sortedBts env bts).map Prod.fst).Perm (groupKeys Bt.bt bts) := by
    have first := (sortedBts_perm env bts).map Prod.fst
    rw [btMap_eq, List.map_map] at first
    exact first.trans (List.Perm.of_eq (List.map_id _))
  have groups : reportGroups env bts = ((sortedBts env bts).map Prod.fst).map (keyed bts) := by
    rw [List.map_map]
    rfl
  rw [groups]
  refine partition_keyed keys ?_
  rw [List.map_map, List.pairwise_map]
  refine List.Pairwise.imp_of_mem ?_ (env.sortBts.ordered _)
  intro it it' hit hit' order
  have fewer : ¬ it'.2.tids.length > it.2.tids.length := of_decide_eq_false order
  rw [sortedBts_value env bts hit, sortedBts_value env bts hit'] at fewer
  simpa [collected] using fewer

end Printed

theorem genResult_groups (env : StackEnv) {conf : Config} (agg : conf.agg = true) (os : ObStack) :
    genResult env conf os =
      (reportGroups env os.bts).flatMap (groupText env.tty fun addr => find addr os.locCache) := by
  rw [genResult_agg env conf agg, printedGroups, List.flatMap_map, reportGroups, List.flatMap_map]
  apply List.flatMap_congr
  intro it hit
  rw [sortedBts_value env os.bts hit]
  exact printGroup_eq _ _ _

theorem genResult_threads (env : StackEnv) {conf : Config} (plain : conf.agg = false)
    (os : ObStack) : genResult env conf os =
      os.bts.flatMap (threadText env.tty fun addr => find addr os.locCache) := by
  rw [genResult, plain, if_neg (by decide), funext (printThread_eq env.tty os.locCache)]

/-- In -a mode the output is that of a partition of the backtraces, largest groups first. -/
theorem genResult_partition (env : StackEnv) (conf : Config) (os : ObStack) :
    ∃ groups, Partition groups os.bts ∧
      genResult env { conf with agg := true } os =
        groups.flatMap (groupText env.tty fun addr => find addr os.locCache) :=
  ⟨_, reportGroups_partition env os.bts, genResult_groups env rfl os⟩

end Obstack
