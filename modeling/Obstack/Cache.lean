import Obstack.Lib.Assoc
import Obstack.Symbols

/-! BFDCache: the pt_loads built from the maps, their symbol tables, and the two address
searches. Tables live in a heap, so that sharing one is visible; a pointer is an index
and a null pointer is none. -/
namespace Obstack
open CText Sorted

/-- CONF, as far as the modelled code reads it. -/
structure Config where
  noParse : Bool := false
  agg : Bool := false
  symbolPath : Option Str := none
  debuginfoPath : Option Str := none
  noLineno : Bool := false
  deriving DecidableEq, Repr

structure Phdr where
  pType : Nat
  pFlags : BitVec 32
  pOffset : ULong
  pVaddr : ULong
  pFilesz : ULong
  pMemsz : ULong
  deriving DecidableEq, Repr

def ptLoadType : Nat := 1

def Phdr.execLoad (p : Phdr) : Bool := p.pType = ptLoadType && (p.pFlags &&& 1) ≠ 0

/-- How far check_shlib gets: fopen or elf_begin fails, there is no ELF header, or the
program headers are read. -/
inductive ElfRead where
  | unreadable
  | noHeader
  | headers (phdrs : List Phdr)
  deriving DecidableEq, Repr

/-- The loop that stops at the first executable PT_LOAD. -/
def firstExecVaddr : List Phdr → ULong
  | [] => 0
  | p :: phdrs => if p.execLoad then p.pVaddr else firstExecVaddr phdrs

/-- Result and out-parameter of check_shlib. -/
def checkShlib (elf : ElfRead) (vaddr : ULong) : Bool × ULong :=
  match elf with
  | .unreadable => (false, vaddr)
  | .noHeader => (false, 0)
  | .headers phdrs => (decide (firstExecVaddr phdrs = 0), firstExecVaddr phdrs)

structure PTLoad where
  addrStart : ULong
  addrEnd : ULong
  isExe : Bool
  st : Option Nat
  loadVaddr : ULong
  deriving DecidableEq, Repr

def PTLoad.less (l r : PTLoad) : Bool := decide (l.addrStart < r.addrStart)

structure Location where
  file : Str
  function : Str
  filename : Str
  line : BitVec 32
  deriving DecidableEq, Repr

structure BFDCache where
  tables : List SymbolTable := []
  stMap : List (Str × Option Nat) := []
  locCache : List (ULong × Location) := []
  ptLoads : List PTLoad := []
  total : Int := 0
  hit : Int := 0
  lack : Int := 0
  deriving DecidableEq, Repr

def inRange (addr : ULong) (ptLoad : PTLoad) : Bool :=
  addr ≥ ptLoad.addrStart && addr < ptLoad.addrEnd

def addr2offset (ptLoad : PTLoad) (addr : ULong) : ULong :=
  addr - (ptLoad.addrStart - ptLoad.loadVaddr)

namespace BFDCache

/-- pt_load->st_, dereferenced. -/
def table (c : BFDCache) (ptLoad : PTLoad) : Option SymbolTable :=
  ptLoad.st.bind (fun st => c.tables[st]?)

def pushPtLoad (c : BFDCache) (ptLoad : PTLoad) : BFDCache × Option PTLoad :=
  ({ c with ptLoads := c.ptLoads ++ [ptLoad] }, some ptLoad)

def initInfo (openBfd : Str → Option Bfd) (info : BFDInfo) : Option (Bfd × BFDInfo) :=
  (openBfd info.file).map (fun abfd => (abfd, { info with abfd := some abfd }))

/-- The -s and -d paths stand in for the mapped file when it has a load address. -/
def newInfo (conf : Config) (file : Str) (loadVaddr : ULong) : BFDInfo :=
  if loadVaddr ≠ 0 then
    { file := conf.symbolPath.getD file, debugFile := conf.debuginfoPath.getD file, abfd := none }
  else { file := file, debugFile := file, abfd := none }

def createNewPtLoad (conf : Config) (sort : StdSort SymbolEnt.less) (elf : ElfRead)
    (openBfd : Str → Option Bfd) (c : BFDCache) (file : Str) (addrStart addrEnd : ULong)
    (isExe loadSyms : Bool) : BFDCache × Option PTLoad :=
  let loadVaddr := (checkShlib elf 0).2
  match Assoc.find file c.stMap with
  | some st => c.pushPtLoad { addrStart, addrEnd, isExe, st, loadVaddr }
  | none =>
    if loadSyms then
      match initInfo openBfd (newInfo conf file loadVaddr) with
      | none => (c, none)
      | some (abfd, bfdInfo) =>
        let table := loadSymbols sort abfd { textVma := 0, textSize := 0, symEnts := [], bfdInfo }
        let st := some c.tables.length
        { c with tables := c.tables ++ [table], stMap := Assoc.insert file st c.stMap }.pushPtLoad
          { addrStart, addrEnd, isExe, st, loadVaddr }
    else
      { c with stMap := Assoc.insert file none c.stMap }.pushPtLoad
        { addrStart, addrEnd, isExe, st := none, loadVaddr }

def sortPtLoad (sort : StdSort PTLoad.less) (c : BFDCache) : BFDCache :=
  { c with ptLoads := sort.run c.ptLoads }

/-- upper_bound on the ends. -/
def findPtLoad (c : BFDCache) (addr : ULong) : Option PTLoad :=
  c.ptLoads[upperBound (fun l => decide (addr < l.addrEnd)) c.ptLoads]?

/-- The search inside do_addr2symbol: upper_bound on the starts, one step back, range check. -/
def searchPtLoad (c : BFDCache) (addr : ULong) : Option PTLoad :=
  let ptIt := upperBound (fun l => decide (addr < l.addrStart)) c.ptLoads
  let ptIt := if ptIt ≠ 0 then ptIt - 1 else c.ptLoads.length
  match c.ptLoads[ptIt]? with
  | some ptLoad => if inRange addr ptLoad then some ptLoad else none
  | none => none

def unknown : Str := ['?', '?', '?']

/-- do_addr2symbol: the new cache and what the callback is given; none is a null dereference. -/
def doAddr2symbol (c : BFDCache) (addr : ULong) : Option (BFDCache × Location) :=
  let c := { c with total := c.total + 1 }
  match Assoc.find addr c.locCache with
  | some loc => some ({ c with hit := c.hit + 1 }, loc)
  | none =>
    match c.searchPtLoad addr with
    | some ptLoad =>
      (c.table ptLoad).map fun st =>
        let function := traceBfdAddr st (addr2offset ptLoad addr) unknown
        let loc := { file := st.bfdInfo.file, function, filename := unknown, line := 0 }
        ({ c with locCache := Assoc.insert addr loc c.locCache }, loc)
    | none =>
      some ({ c with lack := c.lack + 1 },
        { file := unknown, function := unknown, filename := unknown, line := 0 })

end BFDCache

/-- What load_maps finds outside: program headers, the outcome of open_bfd during its i-th
call, and the two sorts of the standard library. -/
structure LoadEnv where
  elf : Str → ElfRead
  openBfd : Nat → Str → Option Bfd
  sortSyms : StdSort SymbolEnt.less
  sortLoads : StdSort PTLoad.less

/-- The loop of load_maps from the i-th map on, with the pt_load of each iteration. -/
def loadMapsLoop (env : LoadEnv) (conf : Config) :
    Nat → List Map → BFDCache → BFDCache × List (Option PTLoad)
  | _, [], c => (c, [])
  | i, map :: maps, c =>
    let step := c.createNewPtLoad conf env.sortSyms (env.elf map.path) (env.openBfd i) map.path
      map.start map.end_ map.isExe (!conf.noParse)
    let rest := loadMapsLoop env conf (i + 1) maps step.1
    (rest.1, step.2 :: rest.2)

def loadMaps (env : LoadEnv) (conf : Config) (maps : List Map) : BFDCache :=
  (loadMapsLoop env conf 0 maps {}).1.sortPtLoad env.sortLoads

end Obstack
