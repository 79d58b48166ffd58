import Obstack.Lib.Sorted
import Obstack.Maps

/-! The symbol table of one object file: BFDInfo::load_symbols and trace_bfd_addr. What
bfd and libelf report of the file is a record; sorting is any std::sort. -/
namespace Obstack
open CText Sorted

/-- A symbol as bfd_minisymbol_to_symbol and bfd_get_symbol_info report it. -/
structure Asymbol where
  function : Bool
  type : Char
  value : ULong
  name : Str
  deriving DecidableEq, Repr

/-- An opened object file: its section header types (none when open fails), the address and
size of .text, and the two minisymbol reads (none when bfd reports -1). -/
structure Bfd where
  shTypes : Option (List Nat)
  text : Option (ULong × ULong)
  regular : Option (List Asymbol)
  dynamic : Option (List Asymbol)
  deriving DecidableEq, Repr

structure SymbolEnt where
  addr : ULong
  name : Str
  deriving DecidableEq, Repr

def SymbolEnt.less (l r : SymbolEnt) : Bool := decide (l.addr < r.addr)

structure BFDInfo where
  file : Str
  debugFile : Str
  abfd : Option Bfd
  deriving DecidableEq, Repr

structure SymbolTable where
  textVma : ULong
  textSize : ULong
  symEnts : List SymbolEnt
  bfdInfo : BFDInfo
  deriving DecidableEq, Repr

def startwith (fullstring starting : Str) : Bool :=
  if starting.length ≤ fullstring.length then fullstring.take starting.length = starting
  else false

def shtSymtab : Nat := 2

/-- False when the file cannot be opened; otherwise whether no section is a SHT_SYMTAB. -/
def checkStripped (shTypes : Option (List Nat)) : Bool :=
  match shTypes with
  | none => false
  | some types => !types.contains shtSymtab

/-- The two filters of the symbol loop. -/
def qualifies (sym : Asymbol) : Bool :=
  sym.function && ['T', 't', 'W', 'w'].contains sym.type &&
    !startwith sym.name ['_', '_', 't', 'c', 'f'] && !startwith sym.name ['_', '_', 't', 'z']

/-- The dynamic table is read only when the regular one has no symbol; -1 is not zero. -/
def readMinisymbols (abfd : Bfd) : List Asymbol :=
  match abfd.regular with
  | some [] => abfd.dynamic.getD []
  | some syms => syms
  | none => []

def loadSymbols (sort : StdSort SymbolEnt.less) (abfd : Bfd) (st : SymbolTable) : SymbolTable :=
  if checkStripped abfd.shTypes then st
  else
    let st := match abfd.text with
      | some (vma, size) => { st with textVma := vma, textSize := size }
      | none => st
    let ents := ((readMinisymbols abfd).filter qualifies).map (fun sym => ⟨sym.value, sym.name⟩)
    { st with symEnts := sort.run (st.symEnts ++ ents) }

/-- The name that data->function points to afterwards. -/
def traceBfdAddr (st : SymbolTable) (relativeAddr : ULong) (function : Str) : Str :=
  let it := upperBound (fun l : SymbolEnt => decide (relativeAddr < l.addr)) st.symEnts
  if it = st.symEnts.length ∨ it = 0 then function
  else match st.symEnts[it - 1]? with
    | some sym => sym.name
    | none => function

end Obstack
