import Obstack.Symbols

/-! What load_symbols collects and what trace_bfd_addr finds in it. The table is ordered by
address; the search steps back from the first symbol above the address, and gives up where
there is none above. -/
namespace Obstack
open CText Sorted

/-- A function symbol in code whose name is none of the thread-local helpers. -/
def Qualifying (sym : Asymbol) : Prop :=
  sym.function = true ∧ sym.type ∈ ['T', 't', 'W', 'w'] ∧
    ¬ ['_', '_', 't', 'c', 'f'] <+: sym.name ∧ ¬ ['_', '_', 't', 'z'] <+: sym.name

instance (sym : Asymbol) : Decidable (Qualifying sym) := inferInstanceAs (Decidable (_ ∧ _))

def Asymbol.ent (sym : Asymbol) : SymbolEnt := ⟨sym.value, sym.name⟩

/-- The regular symbols of a file, or its dynamic ones where it has no regular ones; an
absent list is empty. -/
def listedSymbols (abfd : Bfd) : List Asymbol :=
  if abfd.regular.getD [] = [] then abfd.dynamic.getD [] else abfd.regular.getD []

def expectedEnts (abfd : Bfd) : List SymbolEnt :=
  ((listedSymbols abfd).filter (fun sym => decide (Qualifying sym))).map Asymbol.ent

/-- The table of create_new_pt_load before load_symbols. -/
def newTable (bfdInfo : BFDInfo) : SymbolTable :=
  { textVma := 0, textSize := 0, symEnts := [], bfdInfo }

theorem startwith_iff (fullstring starting : Str) :
    startwith fullstring starting = true ↔ starting <+: fullstring := by
  unfold startwith
  constructor
  · intro starts
    split at starts
    · rw [List.prefix_iff_eq_take]
      exact (of_decide_eq_true starts).symm
    · cases starts
  · intro starts
    rw [if_pos starts.length_le]
    exact decide_eq_true (List.prefix_iff_eq_take.mp starts).symm

theorem qualifies_eq (sym : Asymbol) : qualifies sym = decide (Qualifying sym) := by
  have tcf := startwith_iff sym.name ['_', '_', 't', 'c', 'f']
  have tz := startwith_iff sym.name ['_', '_', 't', 'z']
  rw [Bool.eq_iff_iff, decide_eq_true_iff, qualifies, Qualifying, ← tcf, ← tz]
  simp [and_assoc]

section Content

variable (sort : StdSort SymbolEnt.less) (abfd : Bfd) (bfdInfo : BFDInfo)

theorem loadSymbols_ents : (loadSymbols sort abfd (newTable bfdInfo)).symEnts =
    if checkStripped abfd.shTypes then []
    else sort.run (((readMinisymbols abfd).filter qualifies).map Asymbol.ent) := by
  unfold loadSymbols
  cases checkStripped abfd.shTypes with
  | true => rfl
  | false => cases abfd.text <;> rfl

theorem loadSymbols_sorted :
    (loadSymbols sort abfd (newTable bfdInfo)).symEnts.Pairwise (fun l r => l.addr ≤ r.addr) := by
  rw [loadSymbols_ents]
  cases checkStripped abfd.shTypes with
  | true => exact List.Pairwise.nil
  | false =>
    refine (sort.ordered _).imp ?_
    intro l r order
    exact BitVec.not_lt.mp (of_decide_eq_false order)

/-- The table is in order and holds the qualifying symbols of the file and nothing else. -/
structure ContentRight (st : SymbolTable) : Prop where
  sorted : st.symEnts.Pairwise (fun l r => l.addr ≤ r.addr)
  content : st.symEnts.Perm (expectedEnts abfd)

theorem readMinisymbols_failed (failed : abfd.regular = none) : readMinisymbols abfd = [] := by
  simp only [readMinisymbols, failed]

theorem readMinisymbols_reported (reported : abfd.regular ≠ none) :
    readMinisymbols abfd = listedSymbols abfd := by
  unfold readMinisymbols listedSymbols
  cases list : abfd.regular with
  | none => exact absurd list reported
  | some syms => cases syms <;> rfl

theorem expectedEnts_eq_nil :
    expectedEnts abfd = [] ↔ ∀ sym ∈ listedSymbols abfd, ¬ Qualifying sym := by
  simp [expectedEnts]

theorem loadSymbols_read (read : checkStripped abfd.shTypes = false ∧ abfd.regular ≠ none) :
    (loadSymbols sort abfd (newTable bfdInfo)).symEnts.Perm (expectedEnts abfd) := by
  have filters : qualifies = fun sym => decide (Qualifying sym) := funext qualifies_eq
  rw [loadSymbols_ents, read.1, readMinisymbols_reported abfd read.2, filters]
  exact sort.perm _

theorem loadSymbols_unread (unread : ¬ (checkStripped abfd.shTypes = false ∧ abfd.regular ≠ none)) :
    (loadSymbols sort abfd (newTable bfdInfo)).symEnts = [] := by
  rw [loadSymbols_ents]
  cases stripped : checkStripped abfd.shTypes with
  | true => rfl
  | false =>
    have failed : abfd.regular = none := by
      by_contra reported
      exact unread ⟨stripped, reported⟩
    rw [readMinisymbols_failed abfd failed]
    exact (sort.perm []).eq_nil

theorem loadSymbols_content_iff :
    ContentRight abfd (loadSymbols sort abfd (newTable bfdInfo)) ↔
      (checkStripped abfd.shTypes = false ∧ abfd.regular ≠ none) ∨
        ∀ sym ∈ listedSymbols abfd, ¬ Qualifying sym := by
  have sorted := loadSymbols_sorted sort abfd bfdInfo
  rw [← expectedEnts_eq_nil]
  by_cases read : checkStripped abfd.shTypes = false ∧ abfd.regular ≠ none
  · exact iff_of_true ⟨sorted, loadSymbols_read sort abfd bfdInfo read⟩ (Or.inl read)
  · have ents := loadSymbols_unread sort abfd bfdInfo read
    rw [or_iff_right read]
    constructor
    · rintro ⟨_, content⟩
      rw [ents] at content
      exact content.nil_eq.symm
    · intro nothing
      refine ⟨sorted, ?_⟩
      rw [ents, nothing]

end Content

theorem less_iff (l r : SymbolEnt) : l.less r = true ↔ l.addr.toNat < r.addr.toNat :=
  decide_eq_true_iff

def sortByAddr : StdSort SymbolEnt.less := StdSort.byKey (fun s => s.addr.toNat) _ less_iff

/-- A stripped shared library: sections SHT_PROGBITS and SHT_DYNSYM, one exported function. -/
def strippedLibrary : Bfd where
  shTypes := some [1, 11]
  text := some (0x1000, 0x1000)
  regular := some []
  dynamic := some [⟨true, 'T', 0x1040, ['f']⟩]

/-- The dynamic symbols of a stripped library are never read. -/
theorem stripped_library_unresolved :
    ¬ ContentRight strippedLibrary (loadSymbols sortByAddr strippedLibrary
      (newTable ⟨['/', 'l'], ['/', 'l'], some strippedLibrary⟩)) := by
  rintro ⟨_, content⟩
  have lengths := content.length_eq
  exact absurd lengths (by decide)

/-! ## The search -/

/-- The name of a nearest symbol at or below r, whatever the function was before; without a
symbol there the function stays. -/
structure NearestFound (st : SymbolTable) (r : ULong) : Prop where
  found : (∃ s ∈ st.symEnts, s.addr ≤ r) → ∀ function, ∃ s ∈ st.symEnts, s.addr ≤ r ∧
    (∀ t ∈ st.symEnts, t.addr ≤ r → t.addr ≤ s.addr) ∧ traceBfdAddr st r function = s.name
  kept : (∀ s ∈ st.symEnts, r < s.addr) → ∀ function, traceBfdAddr st r function = function

section Search

variable {st : SymbolTable} (ordered : st.symEnts.Pairwise (fun l r => l.addr ≤ r.addr)) (r : ULong)
include ordered

/-- The bound splits the table at r; the answer is the last symbol before the split, provided
both sides have one. -/
theorem traceBfdAddr_split : ∃ before after, st.symEnts = before ++ after ∧
    (∀ s ∈ before, s.addr ≤ r) ∧ (∀ s ∈ after, r < s.addr) ∧
    ∀ function, traceBfdAddr st r function =
      if after = [] then function else (before.getLast?.map SymbolEnt.name).getD function := by
  have stable : st.symEnts.Pairwise
      (fun s t => decide (r < s.addr) = true → decide (r < t.addr) = true) := by
    refine ordered.imp (fun {s t} order above => ?_)
    have higher : r < s.addr := of_decide_eq_true above
    exact decide_eq_true (Nat.lt_of_lt_of_le higher order)
  obtain ⟨before, after, split, index, low, high⟩ := upperBound_partition stable
  refine ⟨before, after, split, ?_, ?_, ?_⟩
  · intro s hs
    exact BitVec.not_lt.mp (of_decide_eq_false (low s hs))
  · intro s hs
    exact of_decide_eq_true (high s hs)
  · intro function
    unfold traceBfdAddr
    simp only [index]
    simp only [split, List.length_append]
    cases after with
    | nil => simp
    | cons t after =>
      cases before using List.reverseRecOn with
      | nil => simp
      | append_singleton before s _ => simp

/-- The last symbol before the split is nearest. -/
theorem nearest_last {before after : List SymbolEnt} {u : SymbolEnt}
    (split : st.symEnts = before ++ [u] ++ after) (high : ∀ s ∈ after, r < s.addr)
    (t : SymbolEnt) (ht : t ∈ st.symEnts) (reached : t.addr ≤ r) : t.addr ≤ u.addr := by
  rw [split] at ht ordered
  rcases List.mem_append.mp ht with first | last
  · rcases List.mem_append.mp first with early | here
    · have order := (List.pairwise_append.mp (List.pairwise_append.mp ordered).1).2.2
      exact order t early u (by simp)
    · rw [List.mem_singleton.mp here]
      exact BitVec.le_refl _
  · exact absurd reached (BitVec.not_le.mpr (high t last))

end Search

/-- A function longer than every name is no name. -/
theorem longer_not_name {ents : List SymbolEnt} {u : SymbolEnt} (member : u ∈ ents) :
    '?' :: ents.flatMap SymbolEnt.name ≠ u.name := by
  intro same
  have inside := List.sublist_flatten_of_mem (List.mem_map_of_mem (f := SymbolEnt.name) member)
  have short := inside.length_le
  rw [← List.flatMap_def, ← same, List.length_cons] at short
  omega

/-- The search is right exactly for an empty table and below some symbol of the table. -/
theorem nearest_found_iff (sort : StdSort SymbolEnt.less) (abfd : Bfd) (bfdInfo : BFDInfo)
    (r : ULong) :
    NearestFound (loadSymbols sort abfd (newTable bfdInfo)) r ↔
      (loadSymbols sort abfd (newTable bfdInfo)).symEnts = [] ∨
        ∃ s ∈ (loadSymbols sort abfd (newTable bfdInfo)).symEnts, r < s.addr := by
  have ordered := loadSymbols_sorted sort abfd bfdInfo
  generalize loadSymbols sort abfd (newTable bfdInfo) = st at ordered
  obtain ⟨before, after, split, low, high, answer⟩ := traceBfdAddr_split ordered r
  constructor
  · rintro ⟨found, _⟩
    cases after with
    | cons t after => exact Or.inr ⟨t, by simp [split], high t (by simp)⟩
    | nil =>
      cases before with
      | nil => exact Or.inl split
      | cons s before =>
        -- nothing is above r, so a function longer than every name stays what it is
        obtain ⟨u, hu, _, _, same⟩ := found ⟨s, by simp [split], low s (by simp)⟩
          ('?' :: st.symEnts.flatMap SymbolEnt.name)
        rw [answer, if_pos rfl] at same
        exact absurd same (longer_not_name hu)
  · intro above
    constructor
    · rintro ⟨s, hs, below⟩ function
      have nonempty : after ≠ [] := by
        rcases above with none_ | ⟨t, ht, higher⟩
        · simp [none_] at hs
        · rintro rfl
          rw [split, List.append_nil] at ht
          exact absurd (low t ht) (BitVec.not_le.mpr higher)
      cases before using List.reverseRecOn with
      | nil =>
        rw [split] at hs
        exact absurd below (BitVec.not_le.mpr (high s hs))
      | append_singleton before u _ =>
        refine ⟨u, by simp [split], low u (by simp), nearest_last ordered r split high, ?_⟩
        rw [answer, if_neg nonempty]
        simp
    · intro all function
      have nothing : before = [] := by
        apply List.eq_nil_iff_forall_not_mem.mpr
        intro s hs
        exact absurd (low s hs) (BitVec.not_le.mpr (all s (by simp [split, hs])))
      rw [answer, nothing]
      simp

def oneFunction : Bfd where
  shTypes := some [1, shtSymtab]
  text := some (0x1000, 0x1000)
  regular := some [⟨true, 'T', 0x1000, ['f']⟩]
  dynamic := none

def oneFunctionTable : SymbolTable :=
  loadSymbols sortByAddr oneFunction (newTable ⟨['/', 'l'], ['/', 'l'], some oneFunction⟩)

/-- An address inside the last function of a table is not attributed to it. -/
theorem last_function_not_found :
    oneFunctionTable.textVma ≤ 0x1800 ∧
      0x1800 < oneFunctionTable.textVma + oneFunctionTable.textSize ∧
      (∃ s ∈ oneFunctionTable.symEnts, s.addr ≤ 0x1800) ∧
      ¬ NearestFound oneFunctionTable 0x1800 := by
  have ents : oneFunctionTable.symEnts = [⟨0x1000, ['f']⟩] := by decide
  have reached : ∃ s ∈ oneFunctionTable.symEnts, s.addr ≤ 0x1800 :=
    ⟨⟨0x1000, ['f']⟩, by simp [ents], by decide⟩
  refine ⟨by decide, by decide, reached, ?_⟩
  rintro ⟨found, _⟩
  obtain ⟨s, hs, _, _, same⟩ := found reached ['?', '?', '?']
  rw [ents, List.mem_singleton] at hs
  rw [hs] at same
  exact absurd same (by decide)

end Obstack
