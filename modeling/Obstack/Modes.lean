import Obstack.StackIt
import Obstack.Lookup

/-! Address-only mode against parsing mode. The pt_loads of the one are a sublist of those of
the other up to symbol tables, and dropping ranges moves no address that is still covered. -/
namespace Obstack
open CText Sorted BFDCache

theorem inRange_shape {p q : PTLoad} (same : q.shape = p.shape) (addr : ULong) :
    inRange addr q = inRange addr p := by
  simp only [PTLoad.shape, Shape.mk.injEq] at same
  simp only [inRange, same]

theorem addr2offset_shape {p q : PTLoad} (same : q.shape = p.shape) (addr : ULong) :
    addr2offset q addr = addr2offset p addr := by
  simp only [PTLoad.shape, Shape.mk.injEq] at same
  simp only [addr2offset, same]

theorem findPtLoad_plain {parsed plain : LoadEnv} (sameElf : plain.elf = parsed.elf)
    {conf conf' : Config} (noParse : conf'.noParse = true) {maps : List Map}
    (disjoint : Disjoint Map.lo Map.hi maps) {addr : ULong} {p : PTLoad}
    (member : p ∈ (loadMaps parsed conf maps).ptLoads) (inside : inRange addr p = true) :
    ∃ q, (loadMaps plain conf' maps).findPtLoad addr = some q ∧ q.shape = p.shape := by
  have shape := loadMaps_shape parsed conf member
  rw [← sameElf] at shape
  obtain ⟨q, present, same⟩ := loadMaps_noParse plain conf' noParse shape
  have covered : inRange addr q = true := (inRange_shape same addr).trans inside
  exact ⟨q, findPtLoad_covered (loadMaps_ascending plain conf' disjoint) present covered, same⟩

/-- Both modes select the range of p; where p is the executable, the value -n prints is the
offset looked up in the debug file and in the symbol table. -/
structure ModesAgree (parsed plain : BFDCache) (addr : ULong) (p : PTLoad) : Prop where
  selected : parsed.findPtLoad addr = some p
  sameRange : ∃ q, plain.findPtLoad addr = some q ∧ q.shape = p.shape
  printed : p.isExe = true → ∃ st, parsed.table p = some st ∧
    fileAddr parsed addr = some (some (st.bfdInfo.debugFile, noParseValue plain addr)) ∧
    (parsed.doAddr2symbol addr).map Prod.snd =
      some { file := st.bfdInfo.file
             function := traceBfdAddr st (noParseValue plain addr) unknown
             filename := unknown
             line := 0 }

theorem modes_agree (parsed plain : LoadEnv) (sameElf : plain.elf = parsed.elf)
    (conf conf' : Config) (parse : conf.noParse = false) (noParse : conf'.noParse = true)
    (maps : List Map) (disjoint : Disjoint Map.lo Map.hi maps) (addr : ULong) (p : PTLoad)
    (member : p ∈ (loadMaps parsed conf maps).ptLoads) (inside : inRange addr p = true) :
    ModesAgree (loadMaps parsed conf maps) (loadMaps plain conf' maps) addr p := by
  have asc := loadMaps_ascending parsed conf disjoint
  have found := findPtLoad_covered asc member inside
  obtain ⟨q, foundPlain, same⟩ := findPtLoad_plain sameElf noParse disjoint member inside
  refine ⟨found, ⟨q, foundPlain, same⟩, fun isExe => ?_⟩
  obtain ⟨st, table⟩ := (loadMaps_tables parsed conf parse).exists_table member
  have exePlain : q.isExe = true := (congrArg Shape.isExe same).trans isExe
  have printed : noParseValue (loadMaps plain conf' maps) addr = addr2offset p addr := by
    rw [noParseValue, foundPlain, ← addr2offset_shape same addr]
    exact if_pos exePlain
  have fresh : Assoc.find addr (loadMaps parsed conf maps).locCache = none := by
    rw [loadMaps_locCache]
    rfl
  refine ⟨st, table, ?_, ?_⟩
  · rw [fileAddr, found, printed]
    change ((loadMaps parsed conf maps).table p).map _ = _
    rw [table]
    rfl
  · obtain ⟨c', answered, _⟩ := doAddr2symbol_fresh fresh (reported_covered asc member inside table)
    rw [answered, printed]
    rfl

def exeMap : Map := { path := ['/', 'x'], start := 0x401000, end_ := 0x402000, isExe := true }

def exeText : Phdr where
  pType := ptLoadType
  pFlags := 5
  pOffset := 0x1000
  pVaddr := 0x401000
  pFilesz := 0x1000
  pMemsz := 0x1000

/-- The library below the executable loads in one mode only. -/
theorem modes_agree_exe :
    ModesAgree
      (loadMaps { bareEnv [exeText] with
          openBfd := fun i file => if i = 0 then none else (bareEnv []).openBfd i file } {}
        [libraryMap, exeMap])
      (loadMaps (bareEnv [exeText]) { noParse := true } [libraryMap, exeMap])
      0x401234 ⟨0x401000, 0x402000, true, some 0, 0x401000⟩ :=
  modes_agree _ _ rfl _ _ rfl rfl _ ⟨by decide, by decide⟩ _ _ (by decide) (by decide)

end Obstack
