import Obstack.Cache
import Obstack.DebugFile

/-! ObStack: the backtraces, stack_it and what it prints. The order in which a hash map is
iterated is a parameter. -/
namespace Obstack
open CText Sorted Assoc

structure Bt where
  tid : Int
  tname : Str
  addrs : List ULong
  bt : Str
  deriving DecidableEq, Repr

structure ObStack where
  pid : Nat
  maps : List Map := []
  bts : List Bt := []
  locCache : List (ULong × Location) := []
  deriving DecidableEq, Repr

def ObStack.addBt (os : ObStack) (tid : Int) (tname : Str) (addrs : List ULong) (bt : Str) :
    ObStack :=
  { os with bts := os.bts ++ [{ tid, tname, addrs, bt }] }

/-! ## Printing -/

def colorYellow : Str := ['\x1b', '[', '3', '3', 'm']
def colorCyan : Str := ['\x1b', '[', '3', '6', 'm']
def colorReset : Str := ['\x1b', '[', '0', 'm']

/-- %d -/
def intText : Int → Str
  | .ofNat n => dec n
  | .negSucc n => '-' :: dec (n + 1)

def cPrintf (tty : Bool) (color text : Str) : Str :=
  if tty then color ++ text ++ colorReset else text

/-- A location names a source line unless its file name is one of three blanks or the line is 0. -/
def Location.fnValid (loc : Location) : Bool :=
  0 < loc.filename.length && loc.filename ≠ ['0'] &&
    loc.filename ≠ ['(', 'n', 'u', 'l', 'l', ')'] && 0 < loc.line

def locationText (addr : ULong) (loc : Option Location) : Str :=
  let address := ['0', 'x'] ++ (hex addr.toNat).leftpad 16 '0' ++ [' ', 'i', 'n', ' ']
  match loc with
  | none => address ++ ['?', '?', '?', '\n']
  | some loc =>
    if loc.fnValid then
      address ++ loc.function ++ [' ', 'a', 't', ' '] ++ loc.filename ++ [':'] ++
        intText loc.line.toInt ++ ['\n']
    else address ++ loc.function ++ [' ', 'f', 'r', 'o', 'm', ' '] ++ loc.file ++ ['\n']

def printStackFrames (tty : Bool) (locCache : List (ULong × Location)) (addrs : List ULong) : Str :=
  addrs.zipIdx.flatMap fun (addr, frame) =>
    cPrintf tty colorYellow ('#' :: (dec frame).rightpad 4 ' ' ++ [' ']) ++
      cPrintf tty colorCyan (locationText addr (find addr locCache))

/-- The Value of bt_map; addrs points into the first backtrace of the group. -/
structure Value where
  tids : List Int
  tnames : List Str
  addrs : List ULong
  deriving DecidableEq, Repr

def Value.more (l r : Str × Value) : Bool := decide (l.2.tids.length > r.2.tids.length)

/-- bt_map after the loop over bts_. -/
def btMap (bts : List Bt) : List (Str × Value) :=
  groupFold Bt.bt (fun bt => { tids := [], tnames := [], addrs := bt.addrs })
    (fun bt v => { v with tids := v.tids ++ [bt.tid], tnames := v.tnames ++ [bt.tname] }) bts

def printGroup (tty : Bool) (locCache : List (ULong × Location)) (v : Value) : Str :=
  let header := (v.tids.zip v.tnames).zipIdx.flatMap fun ((tid, tname), i) =>
    cPrintf tty colorYellow ((if i = 0 then [] else [',', ' ']) ++ intText tid ++ ['-'] ++ tname)
  cPrintf tty colorYellow ['T', 'h', 'r', 'e', 'a', 'd', 's', ' ', '('] ++ header ++
    cPrintf tty colorYellow [')', '\n'] ++ printStackFrames tty locCache v.addrs

def printThread (tty : Bool) (locCache : List (ULong × Location)) (bt : Bt) : Str :=
  cPrintf tty colorYellow (['T', 'h', 'r', 'e', 'a', 'd', ' '] ++ intText bt.tid ++ [' ', '('] ++
    bt.tname ++ [')', '\n']) ++ printStackFrames tty locCache bt.addrs

/-! ## stack_it -/

/-- What stack_it finds outside, with the iteration orders of its maps and the sort of the
groups it prints. expandBundle yields objs_ or calls exit; binary is what a file is read as. -/
structure StackEnv where
  tty : Bool
  stat : Str → Option Stat
  mapFile : Option Str
  junk : Next
  uninit : Locals
  load : LoadEnv
  fileExist : Str → Bool
  expandBundle : Str → Option (List Str)
  binary : Str → Option Binary
  cplusDemangle : Str → Option Str
  addrOrder : IterOrder (ULong × LineInfo)
  fileOrder : IterOrder (Str × List (ULong × ULong))
  btOrder : IterOrder (Str × Value)
  sortBts : StdSort Value.more

def getDemangledSymbol (cplusDemangle : Str → Option Str) (symbolName : Str) : Str :=
  (cplusDemangle symbolName).getD symbolName

def sortedBts (env : StackEnv) (bts : List Bt) : List (Str × Value) :=
  env.sortBts.run (env.btOrder.run (btMap bts))

def genResult (env : StackEnv) (conf : Config) (os : ObStack) : Str :=
  if conf.agg then
    (sortedBts env os.bts).flatMap (fun it => printGroup env.tty os.locCache it.2)
  else os.bts.flatMap (printThread env.tty os.locCache)

/-- The value -n prints for an address. -/
def noParseValue (c : BFDCache) (addr : ULong) : ULong :=
  match c.findPtLoad addr with
  | some ptLoad => if ptLoad.isExe then addr2offset ptLoad addr else addr
  | none => addr

def printNoParse (tty : Bool) (c : BFDCache) (bt : Bt) : Str :=
  cPrintf tty colorCyan (['t', 'i', 'd', ':', ' '] ++ intText bt.tid ++
      [',', ' ', 't', 'n', 'a', 'm', 'e', ':', ' '] ++ bt.tname ++ [',', ' ', 'b', 't', ':']) ++
    bt.addrs.flatMap (fun addr =>
      cPrintf tty colorCyan ([' ', '0', 'x'] ++ hex (noParseValue c addr).toNat)) ++
    cPrintf tty colorCyan ['\n']

def addrMap (bts : List Bt) : List (ULong × LineInfo) :=
  bts.foldl (fun m bt => bt.addrs.foldl (fun m addr => insert addr {} m) m) []

/-- One step of the regrouping by debug file: the file and the offset handed to addr2line. -/
def fileAddr (c : BFDCache) (addr : ULong) : Option (Option (Str × ULong)) :=
  match c.findPtLoad addr with
  | none => some none
  | some ptLoad =>
    (c.table ptLoad).map (fun st => some (st.bfdInfo.debugFile, addr2offset ptLoad addr))

/-- file_addrs_map, in the order addr_map is iterated; none when a null st_ is read. -/
def fileAddrsMap (c : BFDCache) (addrs : List ULong) : Option (List (Str × List (ULong × ULong))) :=
  addrs.foldlM (fun m addr =>
    (fileAddr c addr).map fun
      | none => m
      | some (file, offset) => upsert file [] (· ++ [(addr, offset)]) m) []

/-- A null pointer or a missing entry that is used. -/
def orBadAccess {α : Type} : Option α → Except Death α
  | some a => .ok a
  | none => .error .badAccess

/-- The constructor of LLVMDwarfDump, and addr2line unless no_lineno is set. -/
def lineInfosOf (env : StackEnv) (conf : Config) (file : Str) (addrs : List ULong) :
    Except Death (List LineInfo) :=
  match env.expandBundle file with
  | none => .error .exited
  | some objs =>
    let lineInfos := List.replicate addrs.length ({} : LineInfo)
    if conf.noLineno then .ok lineInfos
    else (llvmAddr2line (objs.map env.binary) addrs (.default, lineInfos)).map Prod.snd

/-- The body of the last loop: addr2symbol, whose callback inserts the Location. -/
def insertLocation (env : StackEnv) (lineInfo : LineInfo) (addr : ULong)
    (s : BFDCache × List (ULong × Location)) : Except Death (BFDCache × List (ULong × Location)) :=
  (orBadAccess (s.1.doAddr2symbol addr)).map fun (c, loc) =>
    (c, insert addr { file := loc.file
                      function := getDemangledSymbol env.cplusDemangle loc.function
                      filename := lineInfo.filename
                      line := lineInfo.line } s.2)

/-- The i-th address of a file with the i-th line info. -/
def locateAt (env : StackEnv) (addrPairs : List (ULong × ULong)) (lineInfos : List LineInfo)
    (s : BFDCache × List (ULong × Location)) (i : Nat) :
    Except Death (BFDCache × List (ULong × Location)) :=
  match addrPairs[i]?, lineInfos[i]? with
  | some pair, some lineInfo => insertLocation env lineInfo pair.1 s
  | _, _ => .error .badAccess

/-- The loop body for one debug file. -/
def locateFile (env : StackEnv) (conf : Config) (s : BFDCache × List (ULong × Location))
    (kv : Str × List (ULong × ULong)) : Except Death (BFDCache × List (ULong × Location)) :=
  let addrs := kv.2.map Prod.snd
  if env.fileExist kv.1 then
    lineInfosOf env conf kv.1 addrs >>= fun lineInfos =>
      (List.range addrs.length).foldlM (locateAt env kv.2 lineInfos) s
  else .error .exited

/-- From addr_map to the filled loc_cache_. -/
def locate (env : StackEnv) (conf : Config) (c : BFDCache) (bts : List Bt)
    (locCache : List (ULong × Location)) : Except Death (BFDCache × List (ULong × Location)) :=
  orBadAccess (fileAddrsMap c ((env.addrOrder.run (addrMap bts)).map Prod.fst)) >>= fun m =>
    (env.fileOrder.run m).foldlM (locateFile env conf) (c, locCache)

/-- stack_it up to its last statement: the cache, and the object gen_result is called on. -/
def stackItParse (env : StackEnv) (conf : Config) (os : ObStack) : Except Death ObStack :=
  let os := { os with maps := os.maps ++ readMaps env.stat os.pid env.junk env.uninit env.mapFile }
  (locate env conf (loadMaps env.load conf os.maps) os.bts os.locCache).map fun s =>
    { os with locCache := s.2 }

/-- What is printed by then, or how the process has ended. -/
def stackIt (env : StackEnv) (conf : Config) (os : ObStack) : Except Death Str :=
  if conf.noParse then
    let maps := os.maps ++ readMaps env.stat os.pid env.junk env.uninit env.mapFile
    .ok (os.bts.flatMap (printNoParse env.tty (loadMaps env.load conf maps)))
  else (stackItParse env conf os).map (genResult env conf)

end Obstack
