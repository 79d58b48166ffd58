import Obstack.Lib.Resources
import Obstack.Store

/-! load_maps with the files it opens and closes. check_shlib returns before it closes where a
file is no ELF file; open_bfd closes what it refuses, and what it hands over stays open. -/
namespace Obstack
open CText Sorted Resources

/-- A FILE, a descriptor, an Elf or a bfd. -/
inductive Opening where
  | stream (file : Str)
  | fd (file : Str)
  | elf (file : Str)
  | bfd (file : Str)
  deriving DecidableEq, Repr

/-- Whether fopen and elf_begin succeed, and the program headers where there is an ELF header. -/
structure ShlibFile where
  fopen : Bool
  elfBegin : Bool
  phdrs : Option (List Phdr)

/-- The outcomes of file_exist, bfd_openr and the two format checks, and of elf_begin afterwards. -/
structure BfdFile where
  exist : Bool
  openr : Bool
  archive : Bool
  object : Option Bfd
  elfBegin : Bool

def ShlibFile.read (r : ShlibFile) : ElfRead :=
  if !r.fopen || !r.elfBegin then .unreadable
  else match r.phdrs with
    | none => .noHeader
    | some phdrs => .headers phdrs

def BfdFile.opened (r : BfdFile) : Option Bfd :=
  if !r.exist || !r.openr || r.archive then none else r.object

/-- What create_new_pt_load meets in its i-th call. -/
structure FileEnv where
  elf : Str → ShlibFile
  bfd : Nat → Str → BfdFile
  sortSyms : StdSort SymbolEnt.less
  sortLoads : StdSort PTLoad.less

def FileEnv.load (env : FileEnv) : LoadEnv where
  elf file := (env.elf file).read
  openBfd i file := (env.bfd i file).opened
  sortSyms := env.sortSyms
  sortLoads := env.sortLoads

/-- What a symbol table keeps open. -/
def SymbolTable.opening (st : SymbolTable) : Opening := .bfd st.bfdInfo.file

namespace Tracked

def checkShlib (file : Str) (r : ShlibFile) (vaddr : ULong) : Using Opening (Bool × ULong) :=
  if !r.fopen then pure (false, vaddr)
  else do
    let fp ← acquire (.stream file)
    if !r.elfBegin then pure (false, vaddr)
    else do
      let elf ← acquire (.elf file)
      match r.phdrs with
      | none => pure (false, 0)
      | some phdrs => do
        let vaddr := firstExecVaddr phdrs
        release elf
        release fp
        pure (decide (vaddr = 0), vaddr)

/-- DEFER closes both; elf_end of a null pointer does nothing. -/
def checkStripped (file : Str) (elfBegin : Bool) (shTypes : Option (List Nat)) :
    Using Opening Bool :=
  match shTypes with
  | none => pure false
  | some types => do
    let fd ← acquire (.fd file)
    if elfBegin then do
      let elf ← acquire (.elf file)
      release elf
      release fd
      pure (!types.contains shtSymtab)
    else do
      release fd
      pure (!types.contains shtSymtab)

def openBfd (file : Str) (r : BfdFile) : Using Opening (Option Bfd) :=
  if !r.exist then pure none
  else if !r.openr then pure none
  else do
    let abfd ← acquire (.bfd file)
    if r.archive then do
      release abfd
      pure none
    else match r.object with
      | none => do
        release abfd
        pure none
      | some object => pure (some object)

def loadSymbols (sort : StdSort SymbolEnt.less) (file : Str) (elfBegin : Bool) (abfd : Bfd)
    (st : SymbolTable) : Using Opening SymbolTable := do
  let stripped ← checkStripped file elfBegin abfd.shTypes
  if stripped then pure st else pure (Obstack.loadSymbols sort abfd st)

def createNewPtLoad (conf : Config) (sort : StdSort SymbolEnt.less) (elf : ShlibFile)
    (bfd : Str → BfdFile) (c : BFDCache) (file : Str) (addrStart addrEnd : ULong)
    (isExe loadSyms : Bool) : Using Opening (BFDCache × Option PTLoad) := do
  let shlib ← checkShlib file elf 0
  let loadVaddr := shlib.2
  match Assoc.find file c.stMap with
  | some st => pure (c.pushPtLoad { addrStart, addrEnd, isExe, st, loadVaddr })
  | none =>
    if loadSyms then do
      let info := BFDCache.newInfo conf file loadVaddr
      let abfd ← openBfd info.file (bfd info.file)
      match abfd with
      | none => pure (c, none)
      | some abfd => do
        let bfdInfo := { info with abfd := some abfd }
        let table ← loadSymbols sort info.file (bfd info.file).elfBegin abfd
          { textVma := 0, textSize := 0, symEnts := [], bfdInfo }
        let st := some c.tables.length
        pure ({ c with tables := c.tables ++ [table]
                       stMap := Assoc.insert file st c.stMap }.pushPtLoad
          { addrStart, addrEnd, isExe, st, loadVaddr })
    else
      pure ({ c with stMap := Assoc.insert file none c.stMap }.pushPtLoad
        { addrStart, addrEnd, isExe, st := none, loadVaddr })

def loadMapsLoop (env : FileEnv) (conf : Config) :
    Nat → List Map → BFDCache → Using Opening (BFDCache × List (Option PTLoad))
  | _, [], c => pure (c, [])
  | i, map :: maps, c => do
    let step ← createNewPtLoad conf env.sortSyms (env.elf map.path) (env.bfd i) c map.path
      map.start map.end_ map.isExe (!conf.noParse)
    let rest ← loadMapsLoop env conf (i + 1) maps step.1
    pure (rest.1, step.2 :: rest.2)

def loadMaps (env : FileEnv) (conf : Config) (maps : List Map) : Using Opening BFDCache := do
  let r ← loadMapsLoop env conf 0 maps {}
  pure (r.1.sortPtLoad env.sortLoads)

/-! ## What each function leaves open -/

/-- What check_shlib does not close. -/
def unreturned (file : Str) (r : ShlibFile) : List Opening :=
  if !r.fopen then []
  else if !r.elfBegin then [.stream file]
  else match r.phdrs with
    | none => [.stream file, .elf file]
    | some _ => []

theorem checkShlib_leaves (file : Str) (r : ShlibFile) (vaddr : ULong) :
    Leaves [] (checkShlib file r vaddr) (Obstack.checkShlib r.read vaddr) (unreturned file r) := by
  obtain ⟨fopen, elfBegin, phdrs⟩ := r
  cases fopen with
  | false => exact leaves_pure [] _
  | true =>
    refine Leaves.acquire fun fp => ?_
    cases elfBegin with
    | false => exact leaves_pure _ _
    | true =>
      refine Leaves.acquire fun elf => ?_
      cases phdrs with
      | none => exact leaves_pure _ _
      | some phdrs => exact ((leaves_pure [] _).release_last).release_last

theorem checkStripped_leaves (file : Str) (elfBegin : Bool) (shTypes : Option (List Nat)) :
    Leaves [] (checkStripped file elfBegin shTypes) (Obstack.checkStripped shTypes) [] := by
  cases shTypes with
  | none => exact leaves_pure [] _
  | some types =>
    refine Leaves.acquire fun fd => ?_
    cases elfBegin with
    | false => exact (leaves_pure [] _).release_last
    | true => exact Leaves.acquire fun elf => ((leaves_pure [] _).release_last).release_last

theorem openBfd_leaves (file : Str) (r : BfdFile) :
    Leaves [] (openBfd file r) r.opened (if r.opened.isSome then [.bfd file] else []) := by
  obtain ⟨exist, openr, archive, object, elfBegin⟩ := r
  cases exist with
  | false => exact leaves_pure [] _
  | true =>
    cases openr with
    | false => exact leaves_pure [] _
    | true =>
      refine Leaves.acquire fun abfd => ?_
      cases archive with
      | true => exact (leaves_pure [] _).release_last
      | false =>
        cases object with
        | none => exact (leaves_pure [] _).release_last
        | some object => exact leaves_pure _ _

theorem loadSymbols_leaves (sort : StdSort SymbolEnt.less) (file : Str) (elfBegin : Bool)
    (abfd : Bfd) (st : SymbolTable) :
    Leaves [] (loadSymbols sort file elfBegin abfd st) (Obstack.loadSymbols sort abfd st) [] := by
  refine (checkStripped_leaves file elfBegin abfd.shTypes).bind ?_
  cases stripped : Obstack.checkStripped abfd.shTypes with
  | false => exact leaves_pure [] _
  | true =>
    have same : Obstack.loadSymbols sort abfd st = st := by simp [Obstack.loadSymbols, stripped]
    rw [same]
    exact leaves_pure [] _

/-- A call leaves what check_shlib leaves, and the bfd of the table it adds. -/
theorem createNewPtLoad_leaves (conf : Config) (sort : StdSort SymbolEnt.less) (elf : ShlibFile)
    (bfd : Str → BfdFile) (c : BFDCache) (file : Str) (addrStart addrEnd : ULong)
    (isExe loadSyms : Bool) :
    let created := c.createNewPtLoad conf sort elf.read (fun f => (bfd f).opened) file addrStart
      addrEnd isExe loadSyms
    ∃ added, created.1.tables = c.tables ++ added ∧
      Leaves [] (createNewPtLoad conf sort elf bfd c file addrStart addrEnd isExe loadSyms) created
        (unreturned file elf ++ added.map SymbolTable.opening) := by
  intro created
  have checked := checkShlib_leaves file elf 0
  simp only [created, BFDCache.createNewPtLoad]
  cases known : Assoc.find file c.stMap with
  | some st =>
    refine ⟨[], (List.append_nil _).symm, checked.bind ?_⟩
    simp only [known]
    exact leaves_pure [] _
  | none =>
    cases loadSyms with
    | false =>
      refine ⟨[], (List.append_nil _).symm, checked.bind ?_⟩
      simp only [known, Bool.false_eq_true, if_false]
      exact leaves_pure [] _
    | true =>
      let info := BFDCache.newInfo conf file (Obstack.checkShlib elf.read 0).2
      have opens := openBfd_leaves info.file (bfd info.file)
      cases opened : (bfd info.file).opened with
      | none =>
        have failed : BFDCache.initInfo (fun f => (bfd f).opened) info = none :=
          congrArg (Option.map _) opened
        rw [opened] at opens
        simp only [info] at failed opens
        refine ⟨[], ?_, checked.bind ?_⟩
        · simp only [failed, if_true, List.append_nil]
        · simp only [known, failed, if_true]
          exact opens.bind (leaves_pure [] _)
      | some abfd =>
        have built : BFDCache.initInfo (fun f => (bfd f).opened) info =
            some (abfd, { info with abfd := some abfd }) := congrArg (Option.map _) opened
        rw [opened] at opens
        simp only [info] at built opens
        let table := Obstack.loadSymbols sort abfd
          { textVma := 0, textSize := 0, symEnts := [], bfdInfo := { info with abfd := some abfd } }
        have own : table.opening = .bfd info.file := by
          simp only [SymbolTable.opening, table, loadSymbols_bfdInfo]
        refine ⟨[table], ?_, checked.bind ?_⟩
        · simp only [built, if_true]
          rfl
        · simp only [known, built, if_true, List.map_cons, List.map_nil, own]
          refine opens.bind ?_
          exact (loadSymbols_leaves sort _ _ abfd _).bind (leaves_pure [] _)

/-- The loop leaves what its calls leave, each call that of its own map. -/
theorem loadMapsLoop_leaves (env : FileEnv) (conf : Config) (maps : List Map) (i : Nat)
    (c : BFDCache) :
    let loaded := Obstack.loadMapsLoop env.load conf i maps c
    ∃ added left, loaded.1.tables = c.tables ++ added ∧
      Leaves [] (loadMapsLoop env conf i maps c) loaded left ∧
      left.Perm (maps.flatMap (fun m => unreturned m.path (env.elf m.path)) ++
        added.map SymbolTable.opening) := by
  induction maps generalizing i c with
  | nil => exact ⟨[], [], (List.append_nil _).symm, leaves_pure [] _, List.Perm.refl _⟩
  | cons m maps ih =>
    intro loaded
    obtain ⟨first, tables, step⟩ := createNewPtLoad_leaves conf env.sortSyms (env.elf m.path)
      (env.bfd i) c m.path m.start m.end_ m.isExe (!conf.noParse)
    obtain ⟨rest, left, tables', later, perm⟩ := ih (i + 1) _
    refine ⟨first ++ rest, _, ?_, step.bind (later.returning _), ?_⟩
    · rw [← List.append_assoc, ← tables]
      exact tables'
    · rw [List.map_append, List.flatMap_cons, List.append_assoc, List.append_assoc]
      refine List.Perm.append_left _ ((perm.append_left _).trans ?_)
      exact List.perm_append_comm_assoc _ _ _

end Tracked

/-- No handle is left but those that the tables go on using. -/
def OnlyBfdsLeft (s : Handles Opening) : Prop :=
  ∀ o ∈ s.live.map Prod.snd, ∃ file, o = .bfd file

/-- A file that fopen opens is read up to its program headers. -/
def ShlibFile.ReadOut (r : ShlibFile) : Prop :=
  r.fopen = true → r.elfBegin = true ∧ r.phdrs ≠ none

theorem unreturned_iff (file : Str) (r : ShlibFile) :
    (∀ o ∈ Tracked.unreturned file r, ∃ file, o = .bfd file) ↔ r.ReadOut := by
  obtain ⟨fopen, elfBegin, phdrs⟩ := r
  cases fopen with
  | false => simp [Tracked.unreturned, ShlibFile.ReadOut]
  | true =>
    cases elfBegin with
    | false => simp [Tracked.unreturned, ShlibFile.ReadOut]
    | true => cases phdrs <;> simp [Tracked.unreturned, ShlibFile.ReadOut]

/-- load_maps closes nothing twice and nothing that is not open. What it leaves open is one bfd for
each symbol table, and for each map, not for each file, what check_shlib forgets. -/
theorem loadMaps_handles (env : FileEnv) (conf : Config) (maps : List Map) :
    let loaded := loadMaps env.load conf maps
    ∃ s, (Tracked.loadMaps env conf maps).run {} = some (loaded, s) ∧
      (s.live.map Prod.snd).Perm
        (maps.flatMap (fun m => Tracked.unreturned m.path (env.elf m.path)) ++
          loaded.tables.map SymbolTable.opening) ∧
      (OnlyBfdsLeft s ↔ ∀ m ∈ maps, (env.elf m.path).ReadOut) := by
  intro loaded
  obtain ⟨added, left, tables, loop, perm⟩ := Tracked.loadMapsLoop_leaves env conf maps 0 {}
  have whole : Leaves [] (Tracked.loadMaps env conf maps) loaded left := loop.returning _
  obtain ⟨s, new, ran, _, live, kinds⟩ := whole {} [] ⟨List.nodup_nil, nofun⟩ rfl
  obtain rfl : loaded.tables = added := tables
  obtain rfl : s.live = new := live
  rw [← kinds] at perm
  refine ⟨s, ran, perm, ?_⟩
  constructor
  · intro only m member
    refine (unreturned_iff m.path _).mp fun o inside => only o (perm.symm.subset ?_)
    exact List.mem_append_left _ (List.mem_flatMap.mpr ⟨m, member, inside⟩)
  · intro readOut o inside
    rcases List.mem_append.mp (perm.subset inside) with forgotten | kept
    · obtain ⟨m, member, here⟩ := List.mem_flatMap.mp forgotten
      exact (unreturned_iff m.path _).mpr (readOut m member) o here
    · obtain ⟨st, _, rfl⟩ := List.mem_map.mp kept
      exact ⟨_, rfl⟩

end Obstack
