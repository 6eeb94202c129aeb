import Netlist.Import.Project
import Netlist.Text.Blank
import Netlist.Toml.Read

/-!
# Project manifests

A manifest is a TOML document with the settings of a project: library roots and the
limits for atoms and diagnostics.  Names of keys are compared without regard to case.
A key that means nothing here is refused.
-/

namespace Netlist

/-- The settings of a project. -/
structure Manifest where
  path : String
  /-- The library roots as they are written. -/
  libRoots : List String := []
  /-- How many atoms an expression may have; zero if that is left open. -/
  maxAtoms : Int := 0
  /-- How many diagnostics are kept; zero if that is left open. -/
  maxDiagnostics : Int := 0
  deriving DecidableEq, Repr

namespace Manifest

/-- The directory of the project. -/
def root (m : Manifest) : String := Path.dir m.path

/-- The library roots; those that are relative are below the directory of the project. -/
def absoluteRoots (m : Manifest) : List String :=
  m.libRoots.map fun r => if Path.isAbsolute r then Path.clean r else Path.join m.root r

/-! ## Faults -/

/-- What can be wrong with the value of a setting. -/
inductive ValueProblem where
  | notATable (section_ found : String)
  | wrongType (found wanted : String)

def ValueProblem.message : ValueProblem → String
  | notATable section_ found =>
    "type mismatch for main." ++ section_ ++ "Config: expected table but found " ++ found
  | wrongType found wanted =>
    "incompatible types: TOML value has type " ++ found ++ "; destination has type " ++ wanted

/-- A problem with the value of a key. -/
structure ValueFault where
  key : Toml.Key
  /-- The line of its definition, if it has one of its own. -/
  line : Option Nat
  problem : ValueProblem

def ValueFault.message (f : ValueFault) : String :=
  let line := match f.line with
    | some n => "line " ++ Decimal.ofNat n ++ " "
    | none => ""
  "toml: " ++ line ++ "(last key " ++ Text.quoted (Toml.keyText f.key) ++ "): " ++ f.problem.message

/-- Why there is no manifest. -/
inductive ManifestError where
  | uninspectable (fault : Import.InspectFault)
  | unreadable (path : String) (error : FileError)
  | malformed (path : String) (fault : Toml.Fault)
  | badValue (path : String) (fault : ValueFault)
  | unknownKeys (path : String) (keys : List String)
  | notPositive (path setting : String)
  | blankRoot (path : String) (index : Nat)

def ManifestError.message : ManifestError → String
  | uninspectable fault => fault.message
  | unreadable path e => path ++ ": failed to parse TOML: " ++ e.message
  | malformed path fault => path ++ ": failed to parse TOML: " ++ fault.message
  | badValue path fault => path ++ ": failed to parse TOML: " ++ fault.message
  | unknownKeys path keys => path ++ ": unknown keys: " ++ ", ".intercalate keys
  | notPositive path setting => path ++ ": " ++ setting ++ " must be positive"
  | blankRoot path index => path ++ ": [paths].lib_roots[" ++ Decimal.ofNat index ++ "] is empty"

/-! ## Reading -/

/-- A manifest that is being read, with the keys that were used. -/
structure Draft where
  /-- The settings so far. -/
  manifest : Manifest
  /-- The keys that mean something. -/
  used : List Toml.Key := []

/-- A character without regard to case. -/
def foldChar (c : Char) : Char :=
  if c.toNat == 0x17F then 's' else if c.toNat == 0x212A then 'k' else c.toLower

/-- Whether two names are the same without regard to case. -/
def sameName (a b : String) : Bool := a.toList.map foldChar == b.toList.map foldChar

/-- A step of reading a document. -/
abbrev Reading := Except ValueFault

def faultAt {α : Type} (d : Toml.Document) (key : Toml.Key) (p : ValueProblem) : Reading α :=
  .error ⟨key, ((d.facts.at_ key).fact?).map (·.line), p⟩

def readInteger (d : Toml.Document) (key : Toml.Key) : Toml.Value → Reading Int
  | .integer n => .ok n
  | v => faultAt d key (.wrongType v.typeName "integer")

def readTexts (d : Toml.Document) (key : Toml.Key) : List Toml.Value → Reading (List String)
  | [] => .ok []
  | .text s :: rest => return s :: (← readTexts d key rest)
  | v :: _ => faultAt d key (.wrongType v.typeName "string")

def readList (d : Toml.Document) (key : Toml.Key) : Toml.Value → Reading (List String)
  | .array items => readTexts d key items
  | .tables items => readTexts d key (items.map .table)
  | v => faultAt d key (.wrongType v.typeName "slice")

def readSetting (d : Toml.Document) (section_ : String) (key : Toml.Key) (v : Toml.Value)
    (draft : Draft) : Reading Draft := do
  let name := key.getLast?.getD ""
  let used := { draft with used := key :: draft.used }
  let m := draft.manifest
  match section_ with
  | "paths" =>
    if sameName name "lib_roots" then
      let roots ← readList d key v
      return { used with manifest := { m with libRoots := roots } }
    else return draft
  | "pattern" =>
    if sameName name "max_atoms" then
      let n ← readInteger d key v
      return { used with manifest := { m with maxAtoms := n } }
    else return draft
  | "diag" =>
    if sameName name "max" then
      let n ← readInteger d key v
      return { used with manifest := { m with maxDiagnostics := n } }
    else return draft
  | _ => return draft

def sections : List String := ["paths", "pattern", "diag"]

def readSection (d : Toml.Document) (draft : Draft) (member : String × Toml.Value) :
    Reading Draft :=
  let (name, v) := member
  match sections.find? (sameName name) with
  | none => .ok draft
  | some section_ =>
    let draft := { draft with used := [name] :: draft.used }
    match v with
    | .table members =>
      members.foldlM (fun draft (inner, v) => readSetting d section_ [name, inner] v draft) draft
    | v => faultAt d [name] (.notATable section_ v.typeName)

/-- Whether a document defines a setting under its exact name. -/
def defines (d : Toml.Document) (section_ setting : String) : Bool :=
  match Toml.Table.get? d.root section_ with
  | some (.table members) => (Toml.Table.get? members setting).isSome
  | _ => false

def firstBlank? (texts : List String) : Option Nat := texts.findIdx? Text.isBlankText

/-- Checks the settings that were read. -/
def check (d : Toml.Document) (draft : Draft) : Except ManifestError Manifest :=
  let m := draft.manifest
  let unknown := d.keys.filter fun key => !draft.used.contains key
  if !unknown.isEmpty then
    .error (.unknownKeys m.path ((unknown.map Toml.keyText).mergeSort fun a b => !(b < a)))
  else if defines d "pattern" "max_atoms" && m.maxAtoms ≤ 0 then
    .error (.notPositive m.path "[pattern].max_atoms")
  else if defines d "diag" "max" && m.maxDiagnostics ≤ 0 then
    .error (.notPositive m.path "[diag].max")
  else
    match firstBlank? m.libRoots with
    | some index => .error (.blankRoot m.path index)
    | none => .ok m

def read (t : FileTree) (path : String) : Except ManifestError Manifest :=
  match t.read path with
  | .error e => .error (.unreadable path e)
  | .ok content =>
    match Toml.Document.read content with
    | .error fault => .error (.malformed path fault)
    | .ok d =>
      match d.root.foldlM (readSection d) { manifest := { path := path } } with
      | .error fault => .error (.badValue path fault)
      | .ok draft => check d draft

/-- The manifest nearest above a directory, if there is one. -/
def find (t : FileTree) (start : String) : Except ManifestError (Option Manifest) :=
  match Import.findManifest t start with
  | .error fault => .error (.uninspectable fault)
  | .ok none => .ok none
  | .ok (some path) => (read t path).map some

end Manifest

end Netlist
