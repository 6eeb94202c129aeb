import Netlist.Symbol.Table

/-!
# Resolving references

A reference is the name of a symbol of the same file, or a namespace and a name
with a point between them.  A namespace is bound to an imported file, and the
name is looked up among the symbols of that file only.
-/

namespace Netlist

/-- The file that a namespace of a file is bound to. -/
abbrev Bindings := FileId → String → Option FileId

/-- Why a reference leads nowhere. -/
inductive RefProblem where
  | unresolved (token : String)
  | malformed (token : String)
  | unboundNamespace (token ns : String)
  | notInNamespace (token ns name : String)
  | ambiguous (token : String) (candidates : List Symbol)

namespace RefProblem

def code : RefProblem → Code
  | unresolved _ => .unresolvedReference
  | malformed _ => .unresolvedQualifiedReference
  | unboundNamespace _ _ => .unresolvedQualifiedReference
  | notInNamespace _ _ _ => .unresolvedQualifiedReference
  | ambiguous _ _ => .ambiguousReference

def message : RefProblem → String
  | unresolved token =>
    "unresolved reference " ++ Text.quoted token ++
      ": no module or device with this name in the file"
  | malformed token => "cannot resolve " ++ Text.quoted token ++ ": expected <namespace>.<name>"
  | unboundNamespace token ns =>
    "cannot resolve " ++ Text.quoted token ++ ": no import is bound to namespace " ++ Text.quoted ns
  | notInNamespace token ns name =>
    "cannot resolve " ++ Text.quoted token ++ ": namespace " ++ Text.quoted ns ++
      " has no module or device " ++ Text.quoted name
  | ambiguous token candidates =>
    "ambiguous reference " ++ Text.quoted token ++ " matches " ++
      Decimal.ofNat candidates.length ++ " declarations"

def notes : RefProblem → List Note
  | ambiguous _ candidates => candidates.map fun s =>
      ⟨s.span, .text ("candidate " ++ s.definition.kindName ++ " " ++ s.id.text)⟩
  | _ => []

def at_ (p : RefProblem) (span : Span) : Diagnostic := .error p.code span p.message p.notes

end RefProblem

/-- The only symbol of a list, or the problem that there is none or several. -/
def single (token : String) (noMatch : RefProblem) : List Symbol → Except RefProblem Symbol
  | [] => .error noMatch
  | [s] => .ok s
  | several => .error (.ambiguous token several)

/-- The symbol that a reference in a file means, or the problem with it. -/
def SymbolBase.find (b : SymbolBase) (bindings : Bindings) (file : FileId) (token : String) :
    Except RefProblem Symbol :=
  match token.toList.splitOn '.' with
  | [_] => single token (.unresolved token) (b.lookup file token)
  | [nsChars, nameChars] =>
    let ns := String.ofList nsChars
    let name := String.ofList nameChars
    if ns.isEmpty || name.isEmpty then .error (.malformed token)
    else
      match bindings file ns with
      | none => .error (.unboundNamespace token ns)
      | some target => single token (.notInNamespace token ns name) (b.lookup target name)
  | _ => .error (.malformed token)

/-- The symbol that a reference in a file means. -/
def SymbolBase.resolve (b : SymbolBase) (bindings : Bindings) (file : FileId) (token : String)
    (span : Span) : Logged (Option Symbol) :=
  match b.find bindings file token with
  | .ok s => ⟨some s, []⟩
  | .error p => ⟨none, [p.at_ span]⟩

end Netlist
