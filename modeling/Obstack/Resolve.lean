import Obstack.Image
import Obstack.Overrides
import Obstack.Report

/-! From the lines the kernel prints to the Location of a frame. A symbol table holds what the
file of its path had when it was opened, so that a frame whose address translates back is given
the symbol and the line of its link-time address. -/
namespace Obstack
open CText Sorted Runs Vma BFDCache Assoc

/-! ## What the tables hold -/

section Filled

variable (conf : Config) (sort : StdSort SymbolEnt.less) (loadSyms : Bool)

/-- Each table was read from what a call for its path opened. -/
def Filled (calls : List CreateCall) (c : BFDCache) : Prop :=
  ∀ e ∈ c.stMap, ∀ i, e.2 = some i → ∃ call ∈ calls, call.file = e.1 ∧
    ∃ abfd, call.openBfd (call.info conf).file = some abfd ∧
      c.tables[i]? = some (call.table conf sort abfd)

variable {conf sort}

theorem Filled.later {calls : List CreateCall} {c c' : BFDCache} (filled : Filled conf sort calls c)
    (call : CreateCall) (paths : c'.stMap = c.stMap) (tables : c'.tables = c.tables) :
    Filled conf sort (calls ++ [call]) c' := by
  intro e he i stored
  rw [paths] at he
  obtain ⟨earlier, member, rest⟩ := filled e he i stored
  exact ⟨earlier, List.mem_append_left _ member, by simpa only [tables] using rest⟩

theorem Filled.step {calls : List CreateCall} {c : BFDCache} (filled : Filled conf sort calls c)
    (call : CreateCall) :
    Filled conf sort (calls ++ [call]) (c.create conf sort loadSyms call).1 := by
  rcases createNewPtLoad_branches conf sort call.elf call.openBfd c call.file call.addrStart
    call.addrEnd call.isExe loadSyms with ⟨st, _, created⟩ | ⟨_, _, created⟩ | ⟨_, _, _, failed⟩ |
    ⟨_, _, abfd, opened, created⟩
  · simp only [create, created]
    exact filled.later call rfl rfl
  · simp only [create, created]
    intro e he i stored
    rcases mem_insert he with rfl | old
    · cases stored
    · exact filled.later call rfl rfl e old i stored
  · simp only [create, failed]
    exact filled.later call rfl rfl
  · simp only [create, created]
    intro e he i stored
    rcases mem_insert he with rfl | old
    · obtain rfl := Option.some.inj stored
      exact ⟨call, by simp, rfl, abfd, opened, List.getElem?_concat_length⟩
    · obtain ⟨earlier, member, file, opens⟩ := filled e old i stored
      obtain ⟨found, fromFile, table⟩ := opens
      refine ⟨earlier, List.mem_append_left _ member, file, found, fromFile, ?_⟩
      exact (List.getElem?_append_left (List.getElem?_eq_some_iff.mp table).1).trans table

theorem Filled.run {calls : List CreateCall} {c : BFDCache} (filled : Filled conf sort calls c)
    (more : List CreateCall) :
    Filled conf sort (calls ++ more) (c.createAll conf sort loadSyms more).1 := by
  induction more generalizing calls c with
  | nil =>
    rw [List.append_nil]
    exact filled
  | cons call more ih =>
    have rest := ih (filled.step loadSyms call)
    rwa [List.append_assoc] at rest

end Filled

section Tables

variable (env : LoadEnv) (conf : Config)

/-- The file that the line lookup is asked about. -/
def LoadEnv.lineFile (path : Str) : Str :=
  if env.loadVaddr path ≠ 0 then conf.debuginfoPath.getD path else path

theorem newInfo_files (path : Str) :
    (newInfo conf path (env.loadVaddr path)).file = env.symbolFile conf path ∧
      (newInfo conf path (env.loadVaddr path)).debugFile = env.lineFile conf path := by
  rw [newInfo, LoadEnv.symbolFile, LoadEnv.lineFile]
  split <;> exact ⟨rfl, rfl⟩

/-- The table of a path that opens as abfd. -/
def LoadEnv.symbols (path : Str) (abfd : Bfd) : SymbolTable :=
  loadSymbols env.sortSyms abfd
    (newTable { newInfo conf path (env.loadVaddr path) with abfd := some abfd })

/-- A path that opens as one file each time has the symbols of that file. -/
theorem loadMapsLoop_symbols (parse : conf.noParse = false) {maps : List Map} {i : Nat} {m : Map}
    {p : PTLoad} (here : maps[i]? = some m)
    (created : (loadMapsLoop env conf 0 maps {}).2[i]? = some (some p)) {abfd : Bfd}
    (opens : ∀ j, env.openBfd j (env.symbolFile conf m.path) = some abfd) :
    (loadMaps env conf maps).table p = some (env.symbols conf m.path abfd) := by
  have store := createAll_store conf env.sortSyms true (env.calls maps 0)
  have filled : Filled conf env.sortSyms (env.calls maps 0)
      (createAll conf env.sortSyms true {} (env.calls maps 0)).1 := by
    have start : Filled conf env.sortSyms [] {} := by
      intro e he
      cases he
    exact start.run true (env.calls maps 0)
  rw [loadMapsLoop_calls, parse] at created
  have member : (env.call i m, some p) ∈
      (env.calls maps 0).zip (createAll conf env.sortSyms true {} (env.calls maps 0)).2 := by
    apply List.mem_of_getElem? (i := i)
    rw [List.getElem?_zip_eq_some, calls_getElem?, here]
    exact ⟨rfl, created⟩
  obtain ⟨st, found, shape⟩ := store.created _ member p rfl
  have stored := find_mem found
  obtain ⟨k, index, _⟩ := (store.loaded rfl).stored _ stored
  obtain rfl : st = some k := index
  obtain ⟨call, made, file, abfd', opened, table⟩ := filled _ stored k rfl
  obtain ⟨j, place⟩ := List.mem_iff_getElem?.mp made
  rw [calls_getElem?] at place
  obtain ⟨m', _, rfl⟩ := Option.map_eq_some_iff.mp place
  have samePath : m'.path = m.path := file
  have asked : env.openBfd j (env.symbolFile conf m.path) = some abfd' := by
    rw [← samePath, ← (newInfo_files env conf m'.path).1]
    exact opened
  obtain rfl := Option.some.inj ((opens j).symm.trans asked)
  have same : (env.call j m').table conf env.sortSyms abfd = env.symbols conf m.path abfd := by
    rw [LoadEnv.symbols, ← samePath]
    rfl
  rw [shape, loadMaps_calls, parse, ← same]
  exact table

end Tables

/-! ## What the search answers -/

/-- load_symbols gets to the symbols of the file. -/
def Bfd.Read (abfd : Bfd) : Prop := checkStripped abfd.shTypes = false ∧ abfd.regular ≠ none

/-- There is a symbol at or below r, and one above it. -/
def Bfd.Encloses (abfd : Bfd) (r : ULong) : Prop :=
  (∃ s ∈ expectedEnts abfd, s.addr ≤ r) ∧ ∃ s ∈ expectedEnts abfd, r < s.addr

/-- A last symbol at or below r. -/
structure Bfd.Nearest (abfd : Bfd) (r : ULong) (s : SymbolEnt) : Prop where
  listed : s ∈ expectedEnts abfd
  reached : s.addr ≤ r
  last : ∀ t ∈ expectedEnts abfd, t.addr ≤ r → t.addr ≤ s.addr

section Search

variable (sort : StdSort SymbolEnt.less) {abfd : Bfd} (bfdInfo : BFDInfo) {r : ULong}

theorem traceBfdAddr_nearest (read : abfd.Read) (enclosed : abfd.Encloses r) (function : Str) :
    ∃ s, abfd.Nearest r s ∧
      traceBfdAddr (loadSymbols sort abfd (newTable bfdInfo)) r function = s.name := by
  have content := loadSymbols_read sort abfd bfdInfo read
  have ordered := loadSymbols_sorted sort abfd bfdInfo
  obtain ⟨before, after, split, low, high, answer⟩ := traceBfdAddr_split ordered r
  obtain ⟨⟨s, below, reached⟩, t, above, beyond⟩ := enclosed
  rw [← content.mem_iff, split, List.mem_append] at below above
  have more : after ≠ [] := by
    rintro rfl
    have early : t ∈ before := above.resolve_right List.not_mem_nil
    exact absurd beyond (BitVec.not_lt.mpr (low t early))
  have some_ : s ∈ before := below.resolve_right fun late =>
    absurd reached (BitVec.not_le.mpr (high s late))
  cases before using List.reverseRecOn with
  | nil => cases some_
  | append_singleton before u _ =>
    refine ⟨u, ⟨?_, low u (by simp), ?_⟩, ?_⟩
    · rw [← content.mem_iff, split]
      simp
    · intro t listed reached
      exact nearest_last ordered r split high t (content.mem_iff.mpr listed) reached
    · rw [answer, if_neg more]
      simp

theorem traceBfdAddr_unknown (open_ : ¬ (abfd.Read ∧ abfd.Encloses r)) (function : Str) :
    traceBfdAddr (loadSymbols sort abfd (newTable bfdInfo)) r function = function := by
  have ordered := loadSymbols_sorted sort abfd bfdInfo
  obtain ⟨before, after, split, low, high, answer⟩ := traceBfdAddr_split ordered r
  rw [answer]
  by_cases read : abfd.Read
  · have content := loadSymbols_read sort abfd bfdInfo read
    rw [split] at content
    cases after with
    | nil => rfl
    | cons t after =>
      cases before using List.reverseRecOn with
      | nil => rfl
      | append_singleton before s _ =>
        refine absurd ⟨read, ⟨s, ?_, low s (by simp)⟩, t, ?_, high t (by simp)⟩ open_
        · exact content.mem_iff.mp (by simp)
        · exact content.mem_iff.mp (by simp)
  · have nothing := loadSymbols_unread sort abfd bfdInfo read
    rw [split, List.append_eq_nil_iff] at nothing
    rw [if_pos nothing.2]

end Search

/-! ## Frames in program text -/

/-- The Location of link-time address v of the file at a path. -/
structure Resolved (env : StackEnv) (conf : Config) (path : Str) (abfd : Bfd) (v : ULong)
    (loc : Location) : Prop where
  file : loc.file = env.load.symbolFile conf path
  filename : loc.filename = (lineInfoFor env conf (env.load.lineFile conf path) v).filename
  line : loc.line = (lineInfoFor env conf (env.load.lineFile conf path) v).line
  named : abfd.Read → abfd.Encloses v →
    ∃ s, abfd.Nearest v s ∧ loc.function = getDemangledSymbol env.cplusDemangle s.name
  unnamed : ¬ (abfd.Read ∧ abfd.Encloses v) →
    loc.function = getDemangledSymbol env.cplusDemangle unknown

theorem resolved_symbols (env : StackEnv) (conf : Config) (path : Str) (abfd : Bfd) {p : PTLoad}
    {a v : ULong} (offset : addr2offset p a = v) :
    Resolved env conf path abfd v (locationFor env conf
      ((env.load.symbols conf path abfd).bfdInfo.debugFile, a, addr2offset p a)
      (symbolOf (env.load.symbols conf path abfd) p a)) := by
  have info : (env.load.symbols conf path abfd).bfdInfo =
      { newInfo conf path (env.load.loadVaddr path) with abfd := some abfd } :=
    loadSymbols_bfdInfo _ _ _
  obtain ⟨file, debugFile⟩ := newInfo_files env.load conf path
  rw [offset]
  constructor
  case file =>
    simp only [locationFor, symbolOf, info]
    exact file
  case filename => simp only [locationFor, info, debugFile]
  case line => simp only [locationFor, info, debugFile]
  case named =>
    intro read enclosed
    obtain ⟨s, nearest, answer⟩ := traceBfdAddr_nearest env.load.sortSyms
      { newInfo conf path (env.load.loadVaddr path) with abfd := some abfd } read enclosed unknown
    refine ⟨s, nearest, congrArg (getDemangledSymbol _) ?_⟩
    rw [symbolOf, offset]
    exact answer
  case unnamed =>
    intro open_
    refine congrArg (getDemangledSymbol _) ?_
    rw [symbolOf, offset]
    exact traceBfdAddr_unknown env.load.sortSyms _ open_ unknown

/-- Link-time address v of a copy, in a run of lines that opens with text of its file. -/
structure TextFrame (copies : List Copy) (vmas : List Vma) (r : Run Vma) (f : Copy) (v : ULong) :
    Prop where
  run : r ∈ inodeRuns vmas
  opensText : r.first.isText = true
  copy : f ∈ copies
  file : f.file.IsOf r.first
  text : f.IsText v
  low : r.first.start ≤ (f.bias + v).toNat
  high : (f.bias + v).toNat < r.last.end_

section Frames

variable {page : Nat} {elf : Str → ElfRead} {copies : List Copy} {vmas : List Vma}

/-- The pt_load of a run that opens with text, when its path opens as abfd. -/
theorem run_loaded (env : StackEnv) (conf : Config) (parse : conf.noParse = false) (pid : Nat)
    (asc : Vma.Ascending vmas) (whole : ∀ v ∈ vmas, v.ReadWhole)
    (mapFile : env.mapFile = some (Vma.file vmas)) {r : Run Vma} (member : r ∈ inodeRuns vmas)
    (text : r.first.isText = true) {abfd : Bfd}
    (opens : ∀ j, env.load.openBfd j (env.load.symbolFile conf r.first.path) = some abfd) :
    ∃ p ∈ (loadedCache env conf pid).ptLoads,
      p.shape = (mapOf env.stat pid r).shape env.load.elf ∧
      (loadedCache env conf pid).table p = some (env.load.symbols conf r.first.path abfd) := by
  have maps := readMaps_file env.stat pid env.junk env.uninit asc whole
  rw [loadedCache, mapFile, maps]
  have pushed : mapOf env.stat pid r ∈
      ((inodeRuns vmas).filter opensText).map (mapOf env.stat pid) :=
    List.mem_map_of_mem (List.mem_filter.mpr ⟨member, (opensText_iff member).trans text⟩)
  generalize ((inodeRuns vmas).filter opensText).map (mapOf env.stat pid) = maps at pushed
  obtain ⟨i, here⟩ := List.mem_iff_getElem?.mp pushed
  have opensBy : OpensBy env.load conf maps i (mapOf env.stat pid r) :=
    ⟨i, _, Nat.le_refl i, here, rfl, congrArg Option.isSome (opens i)⟩
  obtain ⟨p, created⟩ := (loadMapsLoop_some_iff env.load conf parse here).mpr opensBy
  refine ⟨p, ?_, ?_, loadMapsLoop_symbols env.load conf parse here created opens⟩
  · rw [loadMaps_ptLoads]
    exact (env.load.sortLoads.perm _).symm.subset
      (List.mem_filterMap.mpr ⟨some p, List.mem_of_getElem? created, rfl⟩)
  · have paired : (mapOf env.stat pid r, some p) ∈
        maps.zip (loadMapsLoop env.load conf 0 maps {}).2 :=
      List.mem_of_getElem? (List.getElem?_zip_eq_some.mpr ⟨here, created⟩)
    exact List.forall₂_zip (loadMapsLoop_shapes env.load conf 0 maps {}) paired p rfl

/-- The address of a text frame is found in the pt_load of its run, and nowhere else. -/
theorem text_located (env : StackEnv) (conf : Config) (parse : conf.noParse = false) (pid : Nat)
    (image : Loaded page env.load.elf copies vmas) (whole : ∀ v ∈ vmas, v.ReadWhole)
    (mapFile : env.mapFile = some (Vma.file vmas)) (opening : FirstTextOpens page copies vmas)
    {r : Run Vma} {f : Copy} {v : ULong} (frame : TextFrame copies vmas r f v) {abfd : Bfd}
    (opens : ∀ j, env.load.openBfd j (env.load.symbolFile conf r.first.path) = some abfd) :
    ∃ loc, located env conf (loadedCache env conf pid) (f.bias + v) = some loc ∧
      Resolved env conf r.first.path abfd v loc := by
  obtain ⟨p, member, shape, table⟩ := run_loaded env conf parse pid image.ascending whole mapFile
    frame.run frame.opensText opens
  obtain ⟨start, end_⟩ := mapOf_range env.stat pid r
  have fields : p.addrStart = (mapOf env.stat pid r).start ∧
      p.addrEnd = (mapOf env.stat pid r).end_ := by
    simp only [PTLoad.shape, Map.shape, Shape.mk.injEq] at shape
    exact ⟨shape.1, shape.2.1⟩
  have inside : inRange (f.bias + v) p = true := by
    rw [inRange_iff, Covers, PTLoad.lo, PTLoad.hi, fields.1, fields.2, start, end_]
    exact ⟨frame.low, frame.high⟩
  have first := run_named frame.run _ r.first_mem
  have offset : addr2offset p (f.bias + v) = v := by
    refine (translatesBack_iff image env.stat pid frame.run shape).mpr ?_ r.first first.1 first.2
      start.symm f frame.copy frame.file v frame.text ?_ ?_
    · exact opening r frame.run frame.opensText
    · rw [BitVec.le_def, start]
      exact frame.low
    · rw [BitVec.lt_def, end_]
      exact frame.high
  have asc : Ascending PTLoad.lo PTLoad.hi (loadedCache env conf pid).ptLoads := by
    apply loadMaps_ascending
    rw [mapFile]
    exact (readMaps_ascending env.stat pid env.junk env.uninit image.ascending whole).disjoint
  refine ⟨_, ?_, resolved_symbols env conf r.first.path abfd offset⟩
  exact located_placed (placed_covered _ asc member inside table)
    (reported_covered asc member inside table)

/-- Whatever else is mapped, each frame in program text is given the nearest symbol and the line of
its link-time address, where runs open with the first executable segment, on a page boundary. -/
theorem stackIt_resolves (env : StackEnv) (conf : Config) (parse : conf.noParse = false)
    (pid : Nat) (image : Loaded page env.load.elf copies vmas) (whole : ∀ v ∈ vmas, v.ReadWhole)
    (mapFile : env.mapFile = some (Vma.file vmas)) (opening : FirstTextOpens page copies vmas)
    (bts : List Bt) {os : ObStack} (reached : stackItParse env conf { pid, bts } = .ok os) :
    ∀ r f v, TextFrame copies vmas r f v → ∀ bt ∈ bts, f.bias + v ∈ bt.addrs → ∀ abfd,
      (∀ j, env.load.openBfd j (env.load.symbolFile conf r.first.path) = some abfd) →
      ∃ loc, find (f.bias + v) os.locCache = some loc ∧
        Resolved env conf r.first.path abfd v loc := by
  obtain ⟨_, _, answers⟩ := stackItParse_reached env conf parse pid bts reached
  intro r f v frame bt hbt inside abfd opens
  rw [answers bt hbt _ inside]
  exact text_located env conf parse pid image whole mapFile opening frame opens

end Frames

/-- Two functions, in each of the two files of processLines. -/
def twoFunctions : Bfd where
  shTypes := some [1, shtSymtab]
  text := some (0x1000, 0x200)
  regular := some [⟨true, 'T', 0x1100, ['g']⟩, ⟨true, 't', 0x1000, ['f']⟩]
  dynamic := none

/-- With a mapped file that is no ELF file. -/
def mixedLines : List Vma := processLines ++ [localeLine]

def mixedEnv : StackEnv :=
  { quietStackEnv (some (Vma.file mixedLines)) with
    stat := programStat
    load := { bareEnv [] with elf := processElf, openBfd := fun _ _ => some twoFunctions } }

theorem mixed_loaded : Loaded 0x1000 processElf processCopies mixedLines where
  pageSize := by decide
  ascending :=
    ⟨by unfold mixedLines processLines; decide, by unfold mixedLines processLines; decide⟩
  aligned := by decide
  biased := by decide
  congruent := by decide
  mapped := by decide
  headers := by decide

theorem mixed_runs : inodeRuns mixedLines = inodeRuns processLines ++ [⟨localeLine, []⟩] := by
  decide

theorem mixed_opens : FirstTextOpens 0x1000 processCopies mixedLines := by
  intro r hr text f hf file inside
  rw [mixed_runs, List.mem_append, List.mem_singleton] at hr
  rcases hr with member | rfl
  · exact process_opens r member text f hf file inside
  · exact absurd text (by decide)

theorem stackIt_resolves_library :
    ∃ os, stackItParse mixedEnv {}
        { pid := 1, bts := [⟨7, ['t'], [0x7f0000001040, 0x400010], []⟩] } = .ok os ∧
      ∃ loc, find 0x7f0000001040 os.locCache = some loc ∧ loc.file = ['/', 'l'] ∧
        loc.function = ['f'] ∧ loc.line = 0x1040 := by
  have usable : FilesUsable mixedEnv {} (loadedCache mixedEnv {} 1) [0x7f0000001040, 0x400010] := by
    intro _ _ t _
    have quiet := quiet_usable none {} t.1 t.2.2
    exact ⟨quiet.there, quiet.reads⟩
  obtain ⟨os, parsed, _⟩ := stackItParse_usable mixedEnv {} rfl 1
    [⟨7, ['t'], [0x7f0000001040, 0x400010], []⟩] usable
  have frame : TextFrame processCopies mixedLines ⟨textLine, [libraryData]⟩ (processCopies[1])
      0x1040 :=
    ⟨by decide, by decide, by decide, by decide,
      ⟨textAt 0x1000, by decide, by decide, by decide, by decide⟩, by decide, by decide⟩
  obtain ⟨loc, here, resolved⟩ := stackIt_resolves mixedEnv {} rfl 1 mixed_loaded
    (readWhole_of_fits_all (by decide)) rfl mixed_opens _ parsed _ _ _ frame _
    (List.mem_singleton_self _) (by decide) twoFunctions (fun _ => rfl)
  have ents : expectedEnts twoFunctions = [⟨0x1100, ['g']⟩, ⟨0x1000, ['f']⟩] := by decide
  obtain ⟨s, nearest, name⟩ := resolved.named ⟨by decide, by decide⟩
    ⟨⟨⟨0x1000, ['f']⟩, by simp [ents], by decide⟩, ⟨0x1100, ['g']⟩, by simp [ents], by decide⟩
  have listed := nearest.listed
  rw [ents, List.mem_cons, List.mem_singleton] at listed
  refine ⟨os, parsed, loc, here, resolved.file, ?_, resolved.line⟩
  rcases listed with rfl | rfl
  · exact absurd nearest.reached (by decide)
  · exact name

end Obstack
