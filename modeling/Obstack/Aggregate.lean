import Obstack.Render
import Obstack.Symbolize

/-! Aggregation by bt_ against aggregation by stack. The printed groups are those of the
rendered keys; they are the groups of equal stacks as long as no two stacks share a key. -/
namespace Obstack
open CText Assoc

def captured (tasks : List Task) : List Task := tasks.filter Task.isValid

def Task.toBt (t : Task) : Bt :=
  { tid := t.tid, tname := t.tname, addrs := t.addrs, bt := renderBt t.addrs }

theorem addTasks_eq (os : ObStack) (tasks : List Task) : os.addTasks tasks =
    { os with bts := os.bts ++ (captured tasks).map Task.toBt } := by
  induction tasks generalizing os with
  | nil => simp [ObStack.addTasks, captured]
  | cons t tasks ih =>
    change ObStack.addTasks (if t.isValid then _ else os) tasks = _
    rw [ih]
    cases valid : t.isValid with
    | true => simp [captured, valid, ObStack.addBt, Task.toBt]
    | false => simp [captured, valid]

theorem addTasks_bts (os : ObStack) (tasks : List Task) :
    (os.addTasks tasks).bts = os.bts ++ (captured tasks).map Task.toBt := by
  rw [addTasks_eq]

def printedGroups (env : StackEnv) (bts : List Bt) : List Value := (sortedBts env bts).map Prod.snd

theorem genResult_agg (env : StackEnv) (conf : Config) (agg : conf.agg = true) (os : ObStack) :
    genResult env conf os = (printedGroups env os.bts).flatMap (printGroup env.tty os.locCache) := by
  rw [genResult, if_pos agg, printedGroups, List.flatMap_map]

def collected (bts : List Bt) : Value where
  tids := bts.map Bt.tid
  tnames := bts.map Bt.tname
  addrs := (bts.head?.map Bt.addrs).getD []

theorem btMap_eq (bts : List Bt) : btMap bts =
    (groupKeys Bt.bt bts).map (fun k => (k, collected (bts.filter (fun bt => bt.bt = k)))) := by
  apply groupFold_eq collected
  · intro bt
    rfl
  · intro l bt some
    obtain ⟨first, rest, rfl⟩ := List.exists_cons_of_ne_nil some
    simp [collected]

theorem sortedBts_perm (env : StackEnv) (bts : List Bt) : (sortedBts env bts).Perm (btMap bts) :=
  (env.sortBts.perm _).trans (env.btOrder.perm _)

theorem printedGroups_perm (env : StackEnv) (bts : List Bt) :
    (printedGroups env bts).Perm
      ((groupKeys Bt.bt bts).map (fun k => collected (bts.filter (fun bt => bt.bt = k)))) := by
  have values := (sortedBts_perm env bts).map Prod.snd
  rw [btMap_eq, List.map_map] at values
  exact values

def stackGroup (ts : List Task) (addrs : List ULong) : Value where
  tids := (ts.filter (fun t => t.addrs = addrs)).map Task.tid
  tnames := (ts.filter (fun t => t.addrs = addrs)).map Task.tname
  addrs := addrs

/-- The groups are one for each distinct stack, with all its threads. -/
def AggregatedByStack (groups : List Value) (ts : List Task) : Prop :=
  groups.Perm ((groupKeys Task.addrs ts).map (stackGroup ts))

/-- Two threads share a group exactly when their stacks are equal, and the frames of a group
are those of every thread in it. -/
structure GroupedByStack (groups : List Value) (ts : List Task) : Prop where
  together : ∀ s ∈ ts, ∀ t ∈ ts,
    (∃ g ∈ groups, s.tid ∈ g.tids ∧ t.tid ∈ g.tids) ↔ s.addrs = t.addrs
  frames : ∀ g ∈ groups, ∀ t ∈ ts, t.tid ∈ g.tids → g.addrs = t.addrs

/-- No two different stacks have renderings that agree as far as bt_ holds them. -/
def NoCollision (ts : List Task) : Prop :=
  ∀ s ∈ ts, ∀ t ∈ ts, (btText s.addrs).take 2047 = (btText t.addrs).take 2047 → s.addrs = t.addrs

theorem noCollision_of_short {ts : List Task} (short : ∀ t ∈ ts, (btText t.addrs).length ≤ 2047) :
    NoCollision ts := by
  intro s hs t ht same
  rw [List.take_of_length_le (short s hs), List.take_of_length_le (short t ht)] at same
  exact btText_injective same

theorem noCollision_iff (ts : List Task) : NoCollision ts ↔
    ∀ s ∈ ts, ∀ t ∈ ts, renderBt s.addrs = renderBt t.addrs → s.addrs = t.addrs := by
  simp only [NoCollision, renderBt_eq]

section Groups

variable (ts : List Task)

def keyGroup (key : Str) : Value := collected ((ts.map Task.toBt).filter (fun bt => bt.bt = key))

theorem keyGroup_tids (key : Str) :
    (keyGroup ts key).tids = (ts.filter (fun t => renderBt t.addrs = key)).map Task.tid := by
  simp only [keyGroup, collected, List.filter_map, List.map_map]
  rfl

theorem keyGroup_tnames (key : Str) :
    (keyGroup ts key).tnames = (ts.filter (fun t => renderBt t.addrs = key)).map Task.tname := by
  simp only [keyGroup, collected, List.filter_map, List.map_map]
  rfl

theorem keys_eq : groupKeys Bt.bt (ts.map Task.toBt) = groupKeys (fun t => renderBt t.addrs) ts := by
  simp only [groupKeys, List.map_map]
  rfl

variable {ts}

theorem keyGroup_addrs {t : Task} (member : t ∈ ts) :
    ∃ u ∈ ts, renderBt u.addrs = renderBt t.addrs ∧ (keyGroup ts (renderBt t.addrs)).addrs = u.addrs := by
  have present : t.toBt ∈ (ts.map Task.toBt).filter (fun bt => bt.bt = renderBt t.addrs) :=
    List.mem_filter.mpr ⟨List.mem_map_of_mem member, by simp [Task.toBt]⟩
  obtain ⟨first, rest, group⟩ := List.exists_cons_of_ne_nil (List.ne_nil_of_mem present)
  have opens : first ∈ (ts.map Task.toBt).filter (fun bt => bt.bt = renderBt t.addrs) := by
    simp [group]
  obtain ⟨mapped, key⟩ := List.mem_filter.mp opens
  obtain ⟨u, hu, rfl⟩ := List.mem_map.mp mapped
  exact ⟨u, hu, of_decide_eq_true key, by simp [keyGroup, group, collected, Task.toBt]⟩

theorem keyGroup_eq (distinct : NoCollision ts) {t : Task} (member : t ∈ ts) :
    keyGroup ts (renderBt t.addrs) = stackGroup ts t.addrs := by
  rw [noCollision_iff] at distinct
  have same : ts.filter (fun u => renderBt u.addrs = renderBt t.addrs) =
      ts.filter (fun u => u.addrs = t.addrs) := by
    apply List.filter_congr
    intro u hu
    rw [decide_eq_decide]
    exact ⟨distinct u hu t member, congrArg renderBt⟩
  obtain ⟨u, hu, key, frames⟩ := keyGroup_addrs member
  have tids := keyGroup_tids ts (renderBt t.addrs)
  have tnames := keyGroup_tnames ts (renderBt t.addrs)
  rw [same] at tids tnames
  cases group : keyGroup ts (renderBt t.addrs)
  rw [group] at tids tnames frames
  simp only [stackGroup, Value.mk.injEq]
  exact ⟨tids, tnames, frames.trans (distinct u hu t member key)⟩

theorem printedGroups_tasks (env : StackEnv) (ts : List Task) :
    (printedGroups env (ts.map Task.toBt)).Perm
      ((groupKeys (fun t => renderBt t.addrs) ts).map (keyGroup ts)) := by
  have printed := printedGroups_perm env (ts.map Task.toBt)
  rw [keys_eq] at printed
  exact printed

theorem mem_printedGroups (env : StackEnv) {g : Value} :
    g ∈ printedGroups env (ts.map Task.toBt) ↔ ∃ t ∈ ts, g = keyGroup ts (renderBt t.addrs) := by
  rw [(printedGroups_tasks env ts).mem_iff, List.mem_map]
  constructor
  · rintro ⟨key, hkey, rfl⟩
    obtain ⟨t, ht, rfl⟩ := mem_groupKeys.mp hkey
    exact ⟨t, ht, rfl⟩
  · rintro ⟨t, ht, rfl⟩
    exact ⟨_, mem_groupKeys.mpr ⟨t, ht, rfl⟩, rfl⟩

theorem tid_mem_keyGroup (distinct : (ts.map Task.tid).Nodup) {t : Task} (member : t ∈ ts)
    (key : Str) : t.tid ∈ (keyGroup ts key).tids ↔ renderBt t.addrs = key := by
  rw [keyGroup_tids, List.mem_map]
  constructor
  · rintro ⟨u, hu, same⟩
    obtain ⟨hu, keyed⟩ := List.mem_filter.mp hu
    obtain rfl := List.inj_on_of_nodup_map distinct hu member same
    exact of_decide_eq_true keyed
  · intro keyed
    exact ⟨t, List.mem_filter.mpr ⟨member, decide_eq_true keyed⟩, rfl⟩

theorem together_iff (env : StackEnv) (distinct : (ts.map Task.tid).Nodup) {s t : Task}
    (hs : s ∈ ts) (ht : t ∈ ts) :
    (∃ g ∈ printedGroups env (ts.map Task.toBt), s.tid ∈ g.tids ∧ t.tid ∈ g.tids) ↔
      renderBt s.addrs = renderBt t.addrs := by
  constructor
  · rintro ⟨g, hg, inS, inT⟩
    obtain ⟨u, _, rfl⟩ := (mem_printedGroups env).mp hg
    rw [tid_mem_keyGroup distinct hs] at inS
    rw [tid_mem_keyGroup distinct ht] at inT
    exact inS.trans inT.symm
  · intro same
    refine ⟨_, (mem_printedGroups env).mpr ⟨s, hs, rfl⟩, ?_, ?_⟩
    · exact (tid_mem_keyGroup distinct hs _).mpr rfl
    · exact (tid_mem_keyGroup distinct ht _).mpr same.symm

theorem aggregated_iff (env : StackEnv) (ts : List Task) :
    AggregatedByStack (printedGroups env (ts.map Task.toBt)) ts ↔ NoCollision ts := by
  constructor
  · intro aggregated
    have lengths := ((printedGroups_tasks env ts).symm.trans aggregated).length_eq
    rw [List.length_map, List.length_map] at lengths
    exact (noCollision_iff ts).mpr (groupKeys_derived_injective lengths)
  · intro distinct
    refine (printedGroups_tasks env ts).trans (List.Perm.of_eq ?_)
    rw [groupKeys_derived ((noCollision_iff ts).mp distinct), List.map_map]
    apply List.map_congr_left
    intro addrs stacked
    obtain ⟨t, ht, rfl⟩ := mem_groupKeys.mp stacked
    exact keyGroup_eq distinct ht

theorem grouped_iff (env : StackEnv) (ts : List Task) (tids : (ts.map Task.tid).Nodup) :
    GroupedByStack (printedGroups env (ts.map Task.toBt)) ts ↔ NoCollision ts := by
  constructor
  · intro grouped
    rw [noCollision_iff]
    intro s hs t ht same
    exact (grouped.together s hs t ht).mp ((together_iff env tids hs ht).mpr same)
  · intro distinct
    constructor
    · intro s hs t ht
      rw [together_iff env tids hs ht]
      exact ⟨(noCollision_iff ts).mp distinct s hs t ht, congrArg renderBt⟩
    · intro g hg t ht inside
      obtain ⟨u, hu, rfl⟩ := (mem_printedGroups env).mp hg
      rw [tid_mem_keyGroup tids ht] at inside
      rw [keyGroup_eq distinct hu]
      exact ((noCollision_iff ts).mp distinct t ht u hu inside).symm

end Groups

/-- The groups printed for captured tasks are those of equal stacks exactly when no two
different stacks have renderings that agree on their first 2047 characters. -/
theorem aggregation_iff (env : StackEnv) (pid : Nat) (tasks : List Task) :
    (AggregatedByStack (printedGroups env (ObStack.addTasks { pid } tasks).bts) (captured tasks) ↔
        NoCollision (captured tasks)) ∧
      (((captured tasks).map Task.tid).Nodup →
        (GroupedByStack (printedGroups env (ObStack.addTasks { pid } tasks).bts) (captured tasks) ↔
          NoCollision (captured tasks))) := by
  have bts : (ObStack.addTasks { pid } tasks).bts = (captured tasks).map Task.toBt :=
    addTasks_bts { pid } tasks
  rw [bts]
  exact ⟨aggregated_iff env _, grouped_iff env _⟩

/-! Two stacks of 201 frames that differ in the outermost one. -/

def deepStack (outermost : ULong) : List ULong := List.replicate 200 0x7f0000000000 ++ [outermost]

theorem deepStack_length (outermost : ULong) : (deepStack outermost).length = 201 := by
  rw [deepStack, List.length_append, List.length_replicate]
  rfl

def deepTask (tid : Int) (outermost : ULong) : Task where
  tid := tid
  tname := ['w']
  addrs := deepStack outermost
  bounded := by rw [deepStack_length]; decide

theorem btText_append (as : List ULong) (b : ULong) :
    btText (as ++ [b]) = as.flatMap (fun a => piece a false) ++ btText [b] := by
  induction as with
  | nil => rfl
  | cons a as ih =>
    have more : (as ++ [b]).isEmpty = false := by simp
    rw [List.cons_append, btText, ih, more, List.flatMap_cons, List.append_assoc]

theorem deepStack_text (outermost : ULong) : (btText (deepStack outermost)).take 2047 =
    ((List.replicate 200 (0x7f0000000000 : ULong)).flatMap (fun a => piece a false)).take 2047 := by
  have width : (piece 0x7f0000000000 false).length = 15 := by decide
  have long : ((List.replicate 200 (0x7f0000000000 : ULong)).flatMap
      (fun a => piece a false)).length = 3000 := by
    rw [List.length_flatMap, List.map_replicate, List.sum_replicate_nat, width]
  rw [deepStack, btText_append, List.take_append_of_le_length (by omega)]

theorem deep_stacks_merged :
    ¬ GroupedByStack (printedGroups (quietStackEnv none)
      (ObStack.addTasks { pid := 1 } [deepTask 1 0x401000, deepTask 2 0x402000]).bts)
      (captured [deepTask 1 0x401000, deepTask 2 0x402000]) := by
  have valid (tid : Int) (outermost : ULong) : (deepTask tid outermost).isValid = true := by
    simp [Task.isValid, deepTask, deepStack_length]
  have both : captured [deepTask 1 0x401000, deepTask 2 0x402000] =
      [deepTask 1 0x401000, deepTask 2 0x402000] := by
    simp only [captured, List.filter_cons, valid, if_true, List.filter_nil]
  rw [addTasks_bts, both]
  intro grouped
  have same : renderBt (deepStack 0x401000) = renderBt (deepStack 0x402000) := by
    rw [renderBt_eq, renderBt_eq, deepStack_text, deepStack_text]
  have shared := (together_iff (quietStackEnv none)
    (show ([deepTask 1 0x401000, deepTask 2 0x402000].map Task.tid).Nodup by simp [deepTask])
    (List.mem_cons_self) (List.mem_cons_of_mem _ (List.mem_singleton_self _))).mpr same
  have equal : deepStack 0x401000 = deepStack 0x402000 :=
    (grouped.together _ List.mem_cons_self _
      (List.mem_cons_of_mem _ (List.mem_singleton_self _))).mp shared
  exact absurd (List.append_cancel_left equal) (by decide)

end Obstack
