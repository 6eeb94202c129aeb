import Netlist.Diagnostic.Basic
import Netlist.Document.Basic
import Netlist.Ident

/-!
# Symbols

Every module and device of a file is a symbol.  The symbols of a file form a
table; a file may declare a name twice, and then both symbols are kept and a
reference to the name is ambiguous.
-/

namespace Netlist

/-- What a symbol stands for. -/
inductive Definition where
  | module_ (decl : ModuleDecl)
  | device (decl : DeviceDecl)
  deriving DecidableEq, Repr

namespace Definition

def name : Definition → Located
  | module_ m => m.name
  | device d => d.name

/-- The word for the sort of a definition. -/
def kindName : Definition → String
  | module_ _ => "module"
  | device _ => "device"

def isModule : Definition → Bool
  | module_ _ => true
  | device _ => false

def parameters : Definition → List Entry
  | module_ m => m.parameters
  | device d => d.parameters

def hasParameter (d : Definition) (name : String) : Bool :=
  d.parameters.any fun e => e.key.text == name

/-- Whether a definition may have a port.  The ports of a module are known only after
its expressions are expanded, so any name may be one. -/
def mayHavePort (d : Definition) (port : String) : Bool :=
  match d with
  | module_ _ => true
  | device d => d.ports.any fun p => p.text == port

end Definition

/-- A module or a device of a file. -/
structure Symbol where
  id : Ident
  file : FileId
  /-- What it stands for. -/
  definition : Definition
  deriving DecidableEq, Repr

namespace Symbol

def name (s : Symbol) : String := s.definition.name.text

def span (s : Symbol) : Span := s.definition.name.span

end Symbol

/-- The symbols of a file: modules before devices, each in the order of the file. -/
structure SymbolTable where
  file : FileId
  symbols : List Symbol
  deriving DecidableEq, Repr

def SymbolTable.lookup (t : SymbolTable) (name : String) : List Symbol :=
  t.symbols.filter (·.name == name)

/-- The tables of all files, in the order they were added. -/
structure SymbolBase where
  tables : List SymbolTable := []

namespace SymbolBase

def table? (b : SymbolBase) (file : FileId) : Option SymbolTable :=
  b.tables.find? (·.file == file)

def lookup (b : SymbolBase) (file : FileId) (name : String) : List Symbol :=
  match b.table? file with
  | some t => t.lookup name
  | none => []

/-- A definition that repeats a name of its file. -/
def duplicateSymbol (s first : Symbol) : Diagnostic :=
  .error .duplicateSymbol s.span
    (s.definition.kindName ++ " " ++ Text.quoted s.name ++ " is already declared as a " ++
      first.definition.kindName ++ " in this file")
    [⟨first.span, "previous declaration"⟩]

/-- Makes symbols of definitions.  `before` holds the symbols so far, in order. -/
def declare (file : FileId) :
    (before : List Symbol) → Allocator → List Definition → Logged (List Symbol × Allocator)
  | before, alloc, [] => pure (before, alloc)
  | before, alloc, d :: rest => do
    let kind := if d.isModule then IdKind.module_ else IdKind.device
    let (id, alloc) := alloc.next kind
    let s : Symbol := ⟨id, file, d⟩
    match before.find? (·.name == s.name) with
    | some first => Logged.report (duplicateSymbol s first)
    | none => pure ()
    declare file (before ++ [s]) alloc rest

/-- Adds the symbols of a document, unless its file has a table already. -/
def add (b : SymbolBase) (alloc : Allocator) (d : Document) : Logged (SymbolBase × Allocator) := do
  if (b.table? d.file).isSome then return (b, alloc)
  else
    let definitions := d.modules.map .module_ ++ d.devices.map .device
    let (symbols, alloc) ← declare d.file [] alloc definitions
    return (⟨b.tables ++ [⟨d.file, symbols⟩]⟩, alloc)

end SymbolBase

end Netlist
