import Obstack.Maps

/-! LLVMDwarfDump::addr2line as it runs. Debug files are objects, universal binaries and archives
of them; foreign code may raise a signal at any call, and what a signal does depends on
tl_signal_handler. -/
namespace Obstack
open CText

structure LineInfo where
  filename : Str := []
  line : BitVec 32 := 0
  deriving DecidableEq, Repr

/-- Those of SIG_SET, which install_fatal_signals catches, and any other. -/
inductive Fault where
  | SIGABRT
  | SIGBUS
  | SIGFPE
  | SIGSEGV
  | other (sig : Nat)
  deriving DecidableEq, Repr

def sigSet : List Fault := [.SIGABRT, .SIGBUS, .SIGFPE, .SIGSEGV]

/-- Foreign code comes back or raises a signal. -/
inductive Ran (α : Type) where
  | back (a : α)
  | raised (sig : Fault)

/-- tl_signal_handler -/
inductive SignalHandler where
  | default
  | faultTolerant
  deriving DecidableEq, Repr

/-- Where the process ends: in exit, by a signal, in a jump to a frame that is gone, or with a
null pointer or an entry that is not there. -/
inductive Death where
  | exited
  | killed (sig : Fault)
  | staleJump
  | badAccess
  deriving DecidableEq, Repr

/-- No undefined behaviour. -/
def Death.defined : Death → Bool
  | .exited => true
  | .killed _ => true
  | .staleJump => false
  | .badAccess => false

/-- siglongjmp is what becomes of a signal. -/
def jumps (handler : SignalHandler) (sig : Fault) : Bool :=
  sig ∈ sigSet && handler = .faultTolerant

/-- A signal outside the loop over the addresses, where no sigsetjmp is in force. -/
def raisedOutside (handler : SignalHandler) (sig : Fault) : Death :=
  if jumps handler sig then .staleJump else .killed sig

/-- An object file with the DWARF context made of it. -/
structure DebugObject where
  loadRegisterInfo : Ran Unit
  getDIEsForAddress : ULong → Ran Bool
  getLineInfoForAddress : ULong → Ran (Option LineInfo)

/-- tl_signal_handler and the line infos. -/
abbrev LineState := SignalHandler × List LineInfo

namespace DebugObject

def lookup (obj : DebugObject) (address : ULong) (lineInfo : LineInfo) : Ran (Bool × LineInfo) :=
  match obj.getDIEsForAddress address with
  | .raised sig => .raised sig
  | .back false => .back (false, lineInfo)
  | .back true =>
    match obj.getLineInfoForAddress address with
    | .raised sig => .raised sig
    | .back none => .back (false, lineInfo)
    | .back (some info) => .back (true, info)

/-- One iteration: sigsetjmp, the handler, the lookup. -/
def lookupAt (obj : DebugObject) (addrs : List ULong) (s : LineState) (i : Nat) :
    Except Death LineState :=
  match addrs[i]?, s.2[i]? with
  | some addr, some lineInfo =>
    match obj.lookup addr lineInfo with
    | .back (_, lineInfo) => .ok (.faultTolerant, s.2.set i lineInfo)
    | .raised sig =>
      if jumps .faultTolerant sig then .ok (.faultTolerant, s.2) else .error (.killed sig)
  | _, _ => .ok s

/-- The handler of before is put back in the end. -/
def dumpObjectFile (obj : DebugObject) (addrs : List ULong) (s : LineState) :
    Except Death LineState :=
  match obj.loadRegisterInfo with
  | .raised sig => .error (raisedOutside s.1 sig)
  | .back _ =>
    ((List.range addrs.length).foldlM (obj.lookupAt addrs) s).map fun r => (s.1, r.2)

end DebugObject

mutual

/-- What createBinary makes of a buffer. -/
inductive Binary where
  | unreadable
  | crash (sig : Fault)
  | object (obj : DebugObject)
  | universal (slices : List Slice)
  | archive (children : List ArchiveChild) (damaged : Bool)
  | other

/-- What a slice of a universal binary can be read as. -/
inductive Slice where
  | object (obj : DebugObject)
  | archive (children : List ArchiveChild) (damaged : Bool)
  | neither

/-- getMemoryBufferRef or getName fails, or there is a member. -/
inductive ArchiveChild where
  | unreadable
  | unnamed
  | member (binary : Binary)

end

section Handle

variable (addrs : List ULong)

mutual

def handleBuffer : Binary → LineState → Except Death LineState
  | .unreadable, _ => .error .exited
  | .crash sig, s => .error (raisedOutside s.1 sig)
  | .object obj, s => obj.dumpObjectFile addrs s
  | .universal slices, s => handleSlices slices s
  | .archive children damaged, s =>
    handleArchive children s >>= fun s => if damaged then .error .exited else .ok s
  | .other, s => .ok s

def handleSlices : List Slice → LineState → Except Death LineState
  | [], s => .ok s
  | slice :: slices, s => handleSlice slice s >>= handleSlices slices

def handleSlice : Slice → LineState → Except Death LineState
  | .object obj, s => obj.dumpObjectFile addrs s
  | .archive children damaged, s =>
    handleArchive children s >>= fun s => if damaged then .error .exited else .ok s
  | .neither, s => .ok s

/-- The loop over the children; its error is looked at behind it. -/
def handleArchive : List ArchiveChild → LineState → Except Death LineState
  | [], s => .ok s
  | child :: children, s => handleChild child s >>= handleArchive children

def handleChild : ArchiveChild → LineState → Except Death LineState
  | .unreadable, _ => .error .exited
  | .unnamed, _ => .error .exited
  | .member binary, s => handleBuffer binary s

end

/-- none is a file that getFileOrSTDIN cannot read. -/
def handleFile (file : Option Binary) (s : LineState) : Except Death LineState :=
  match file with
  | none => .error .exited
  | some binary => handleBuffer addrs binary s

end Handle

/-- objs are the files that expandBundle has put into objs_. -/
def llvmAddr2line (objs : List (Option Binary)) (addrs : List ULong) (s : LineState) :
    Except Death LineState :=
  if addrs.length ≠ s.2.length then .ok s
  else objs.foldlM (fun s file => handleFile addrs file s) s

end Obstack
