import Obstack.Lib.Loops
import Obstack.Lookup

/-! The location cache over a whole history of queries. A cached entry is the answer its
address would get from an empty cache, so that a repeat cannot tell the difference; the
counters tell every query apart as a hit, a lack or a new entry. -/
namespace Obstack
open CText Sorted Loops BFDCache

namespace BFDCache

def cleared (c : BFDCache) : BFDCache := { c with locCache := [], total := 0, hit := 0, lack := 0 }

/-- addr2symbol for each address of a history, with what the callbacks were given. -/
def queryAll : BFDCache → List ULong → Option (BFDCache × List Location) := answerAll doAddr2symbol

/-- The counters after n queries. -/
structure Balanced (n : Nat) (c : BFDCache) : Prop where
  total : c.total = n
  split : c.total = c.hit + c.lack + c.locCache.length
  hits : 0 ≤ c.hit
  lacks : 0 ≤ c.lack

/-- What the history has left of the cache it started from. -/
structure Transparent (start : BFDCache) (asked : List ULong) (c : BFDCache) : Prop where
  loads : c.ptLoads = start.ptLoads
  tables : c.tables = start.tables
  answers : ∀ e ∈ c.locCache, start.reported e.1 = some e.2
  distinct : (c.locCache.map Prod.fst).Nodup
  balanced : Balanced asked.length c

namespace Transparent

variable {start c : BFDCache} {asked : List ULong}

theorem cleared (start : BFDCache) : Transparent start [] start.cleared where
  loads := rfl
  tables := rfl
  answers := by intro e he; cases he
  distinct := List.nodup_nil
  balanced := ⟨rfl, rfl, le_rfl, le_rfl⟩

theorem answer (trans : Transparent start asked c) (addr : ULong) :
    (c.doAddr2symbol addr).map Prod.snd = start.reported addr := by
  rw [doAddr2symbol_eq]
  cases cached : Assoc.find addr c.locCache with
  | some loc => exact (trans.answers _ (Assoc.find_mem cached)).symm
  | none =>
    rw [← reported_congr trans.loads trans.tables addr]
    unfold reported
    cases c.searchPtLoad addr with
    | none => rfl
    | some p => cases table : c.table p <;> simp [table]

theorem step (trans : Transparent start asked c) {addr : ULong} {c' : BFDCache} {loc : Location}
    (stepped : c.doAddr2symbol addr = some (c', loc)) :
    Transparent start (asked ++ [addr]) c' := by
  obtain ⟨loads, tables, answers, distinct, total, split, hits, lacks⟩ := trans
  have longer : ((asked ++ [addr]).length : Int) = asked.length + 1 := by simp
  rw [doAddr2symbol_eq] at stepped
  cases cached : Assoc.find addr c.locCache with
  | some old =>
    rw [cached] at stepped
    cases stepped
    refine ⟨loads, tables, answers, distinct, ?_, ?_, ?_, lacks⟩ <;> dsimp only <;> omega
  | none =>
    rw [cached] at stepped
    cases found : c.searchPtLoad addr with
    | none =>
      rw [found] at stepped
      cases stepped
      refine ⟨loads, tables, answers, distinct, ?_, ?_, hits, ?_⟩ <;> dsimp only <;> omega
    | some p =>
      simp only [found, Option.map_eq_some_iff] at stepped
      obtain ⟨st, table, pair⟩ := stepped
      cases pair
      have fresh := Assoc.find_eq_none.mp cached
      have grown := Assoc.insert_absent (symbolOf st p addr) fresh
      refine ⟨loads, tables, ?_, ?_, ?_, ?_, hits, lacks⟩
      · intro e he
        rcases Assoc.mem_insert he with rfl | old
        · rw [← reported_congr loads tables addr, reported, found]
          simp [table]
        · exact answers e old
      · exact Assoc.nodup_insert distinct
      · dsimp only
        omega
      · simp only [grown, List.length_append, List.length_singleton]
        omega

end Transparent

end BFDCache

/-- Every query of a history is answered once and as on an empty cache, and the counters add up. -/
theorem queries_transparent (c : BFDCache) (tables : ∀ p ∈ c.ptLoads, ∃ st, c.table p = some st)
    (asked : List ULong) :
    ∃ c' locs, c.cleared.queryAll asked = some (c', locs) ∧
      List.Forall₂ (fun addr loc => (c.cleared.doAddr2symbol addr).map Prod.snd = some loc)
        asked locs ∧
      Balanced asked.length c' ∧ (c'.locCache.map Prod.fst).Nodup := by
  have start := Transparent.cleared c
  have answers : ∀ done s addr, Transparent c done s → ∃ s' loc,
      doAddr2symbol s addr = some (s', loc) ∧
      (c.cleared.doAddr2symbol addr).map Prod.snd = some loc ∧
      Transparent c (done ++ [addr]) s' := by
    intro done s addr trans
    obtain ⟨loc, reported⟩ := reported_isSome tables addr
    obtain ⟨⟨s', loc'⟩, stepped, same⟩ :=
      Option.map_eq_some_iff.mp ((trans.answer addr).trans reported)
    obtain rfl : loc' = loc := same
    exact ⟨s', loc', stepped, (start.answer addr).trans reported, trans.step stepped⟩
  obtain ⟨c', locs, ran, each, ended⟩ := answerAll_answers answers start asked
  exact ⟨c', locs, ran, each, ended.balanced, ended.distinct⟩

/-- A hit, two lacks that are not cached, and addresses of two libraries. -/
theorem queries_transparent_repeated :
    let c := loadMaps (bareEnv []) {} gapMaps
    let asked := [0x1100, 0x4000, 0x6100, 0x1100, 0x4000]
    ∃ c' locs, c.cleared.queryAll asked = some (c', locs) ∧
      List.Forall₂ (fun addr loc => (c.cleared.doAddr2symbol addr).map Prod.snd = some loc)
        asked locs ∧
      Balanced 5 c' ∧ (c'.locCache.map Prod.fst).Nodup :=
  queries_transparent (loadMaps (bareEnv []) {} gapMaps)
    (fun _ => (loadMaps_tables (bareEnv []) {} rfl).exists_table) _

end Obstack
