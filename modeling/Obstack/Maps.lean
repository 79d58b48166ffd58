import Obstack.Lib.Text

/-! ObStack::read_maps. Each line of /proc/pid/maps is scanned on its own; a run of
scanned lines with one inode becomes at most one Map. Locals without an initialiser
are parameters: nothing is assumed of what the stack held before. -/
namespace Obstack
open CText

/-- ulong and int64_t share their bits; a signed comparison is written slt. -/
abbrev ULong := BitVec 64

/-- What stat reports, as far as is_same_file reads it. -/
structure Stat where
  stDev : Nat
  stIno : Nat
  deriving DecidableEq, Repr

def isSameFile (stat : Str → Option Stat) (path1 path2 : Str) : Bool :=
  match stat path1, stat path2 with
  | some sb1, some sb2 => sb1.stDev = sb2.stDev && sb1.stIno = sb2.stIno
  | _, _ => false

structure Map where
  path : Str
  start : ULong
  end_ : ULong
  isExe : Bool
  deriving DecidableEq, Repr

/-- The locals next_* of one iteration. -/
structure Next where
  nextStart : ULong
  nextEnd : ULong
  nextPerms : Str
  nextOffset : ULong
  nextMajor : ULong
  nextMinor : ULong
  nextInode : ULong
  nextPath : Str
  deriving DecidableEq, Repr, Inhabited

structure Locals where
  inode : ULong
  path : Str
  hasPermE : Bool
  minAddr : ULong
  maxAddr : ULong
  deriving DecidableEq, Repr, Inhabited

/-- "%lx-%lx %4s %lx %lx:%lx %ld %255s" -/
def mapsFormat : List Directive :=
  [.lx, .lit '-', .lx, .blank, .s 4, .blank, .lx, .blank, .lx, .lit ':', .lx, .blank, .ld,
    .blank, .s 255]

/-- The next_* of a line on which all 8 fields are scanned; none when n < 8. -/
def scanLine (line : Str) : Option Next :=
  match sscanf mapsFormat line with
  | [.num nextStart, .num nextEnd, .str nextPerms, .num nextOffset, .num nextMajor,
      .num nextMinor, .num nextInode, .str nextPath] =>
    some { nextStart, nextEnd, nextPerms, nextOffset, nextMajor, nextMinor, nextInode,
           nextPath }
  | _ => none

/-- strlen(next_perms) == 4 && 'x' == next_perms[2] -/
def permsExec (perms : Str) : Bool := perms.length = 4 && perms[2]? = some 'x'

def exePath (pid : Nat) : Str :=
  ['/', 'p', 'r', 'o', 'c', '/'] ++ dec pid ++ ['/', 'e', 'x', 'e']

/-- The branch for a line of the run being read. The statement
has_perm_e ?: strlen(next_perms) == 4 && 'x' == next_perms[2] assigns nothing. -/
def extendRun (l : Locals) (next : Next) : Locals :=
  { l with
    minAddr := if next.nextStart.slt l.minAddr then next.nextStart else l.minAddr
    maxAddr := if l.maxAddr.slt next.nextEnd then next.nextEnd else l.maxAddr }

def startRun (next : Next) : Locals :=
  { inode := next.nextInode
    path := next.nextPath
    hasPermE := permsExec next.nextPerms
    minAddr := next.nextStart
    maxAddr := next.nextEnd }

section ReadMaps

variable (stat : Str → Option Stat) (pid : Nat)

/-- The Map pushed for a finished run, if it is pushed at all. -/
def pushedMap (l : Locals) : Option Map :=
  if (0 : ULong).slt l.inode && l.hasPermE && l.path.head? ≠ some '[' then
    some { path := l.path
           start := l.minAddr
           end_ := l.maxAddr
           isExe := isSameFile stat l.path (exePath pid) }
  else none

/-- The yield block: push the finished run, then start over from the line just read. -/
def yieldRun (next : Next) (l : Locals) (maps : List Map) : Locals × List Map :=
  (startRun next, maps ++ (pushedMap stat pid l).toList)

/-- The do-while loop over the fgets results. The iteration that meets the end of the file
reads next_* that nothing has written: junk. -/
def readMapsLoop (junk : Next) : List Str → Locals → List Map → List Map
  | [], l, maps => (yieldRun stat pid junk l maps).2
  | line :: lines, l, maps =>
    match scanLine line with
    | none => readMapsLoop junk lines l maps
    | some next =>
      if next.nextInode ≠ l.inode then
        let s := yieldRun stat pid next l maps
        readMapsLoop junk lines s.1 s.2
      else readMapsLoop junk lines (extendRun l next) maps

/-- read_maps on an opened maps file, none when fopen fails. Only inode is initialised. -/
def readMaps (junk : Next) (uninit : Locals) (mapFile : Option Str) : List Map :=
  match mapFile with
  | none => []
  | some text => readMapsLoop stat pid junk (readLines 1024 text) { uninit with inode := -1 } []

end ReadMaps

end Obstack
