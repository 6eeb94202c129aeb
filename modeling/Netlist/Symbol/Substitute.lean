import Netlist.Diagnostic.Basic
import Netlist.Document.Basic

/-!
# Variables

A text may hold placeholders: the name of a variable between braces.  The value
of a variable is its text with the placeholders replaced in turn.  A variable
that needs itself has no value, and neither has one that needs a variable
without a value.
-/

namespace Netlist

/-! ## Templates -/

/-- A piece of a text with placeholders. -/
inductive TemplatePiece where
  /-- Text that stands for itself. -/
  | text (s : String)
  /-- A placeholder, with the byte range of it and its braces. -/
  | variable (name : String) (start stop : Nat)
  deriving DecidableEq, Repr

/-- Whether a character may stand in the name of a variable, given whether it is the
first one. -/
def isVariableChar (first : Bool) (c : Char) : Bool :=
  c == '_' || ('a' ≤ c && c ≤ 'z') || ('A' ≤ c && c ≤ 'Z') || ('0' ≤ c && c ≤ '9' && !first)

def isVariableName : List Char → Bool
  | [] => false
  | c :: rest => isVariableChar true c && rest.all (isVariableChar false)

def openBrace : Char := '\x7b'

def closeBrace : Char := '\x7d'

/-- Cuts a text at its placeholders.  `offset` is the byte offset of the rest;
`name` holds what follows an open brace at `start`, last character first. -/
def templateFrom :
    (offset : Nat) → (name : Option (Nat × List Char)) → List Char → List TemplatePiece
  | _, none, [] => []
  | _, some (_, name), [] => [.text (String.ofList (openBrace :: name.reverse))]
  | offset, none, c :: rest =>
    if c == openBrace then templateFrom (offset + 1) (some (offset, [])) rest
    else .text (String.singleton c) :: templateFrom (offset + c.utf8Size) none rest
  | offset, some (start, name), c :: rest =>
    if c == closeBrace then
      let piece :=
        if isVariableName name.reverse then
          TemplatePiece.variable (String.ofList name.reverse) start (offset + 1)
        else .text (String.ofList (openBrace :: name.reverse ++ [closeBrace]))
      piece :: templateFrom (offset + 1) none rest
    else templateFrom (offset + c.utf8Size) (some (start, c :: name)) rest

/-- Cuts a text at its placeholders. -/
def template (s : String) : List TemplatePiece := templateFrom 0 none s.toList

/-! ## Values -/

/-- Variables and what is known about their values. -/
structure Variables where
  /-- The variables with their texts; of several with one name the first counts. -/
  texts : List (String × Located)
  /-- The values found so far. -/
  values : List (String × String) := []
  /-- The variables that have no value, as far as that is known. -/
  failed : List String := []

/-- The variables of a list of entries; of several with one name the last counts. -/
def Variables.ofEntries (entries : List Entry) : Variables :=
  { texts := (entries.map fun e => (e.key.text, e.value)).reverse }

/-- A step that looks at variables and reports problems. -/
abbrev Substitution := StateT Variables Logged

def Substitution.report (d : Diagnostic) : Substitution Unit := fun s => do
  Logged.report d
  return ((), s)

/-- A placeholder for a variable that is not declared. -/
def undefinedVariable (name : String) (span : Span) : Diagnostic :=
  .error .undefinedVariable span ("undefined variable " ++ Text.quoted name)

/-- A variable that needs itself through others. -/
def variableCycle (chain : List String) (span : Span) : Diagnostic :=
  .error .variableCycle span ("variable cycle: " ++ " -> ".intercalate chain)

/-- Puts a template together, given how values are found: the text, and whether
all its variables have values. -/
def fill (value : String → Substitution (Option String)) (span : Span) :
    List TemplatePiece → Substitution (String × Bool)
  | [] => pure ("", true)
  | .text s :: rest => do
    let (more, ok) ← fill value span rest
    return (s ++ more, ok)
  | .variable name start stop :: rest => do
    if ((← get).texts.lookup name).isNone then
      Substitution.report (undefinedVariable name (span.slice start stop))
      let (more, _) ← fill value span rest
      return (more, false)
    else
      match ← value name with
      | some s =>
        let (more, ok) ← fill value span rest
        return (s ++ more, ok)
      | none =>
        let (more, _) ← fill value span rest
        return (more, false)

/-- The value of a variable.  `stack` holds the variables that need it, innermost
first; they are different, so the number of variables is fuel enough. -/
def valueFrom :
    (fuel : Nat) → (stack : List String) → (name : String) → Substitution (Option String)
  | 0, _, _ => pure none
  | fuel + 1, stack, name => do
    let s ← get
    match s.values.lookup name, s.failed.contains name, s.texts.lookup name with
    | some v, _, _ => return some v
    | none, true, _ => return none
    | none, false, none => return none
    | none, false, some raw =>
      if stack.contains name then
        let chain := name :: (stack.takeWhile (· != name)).reverse
        set { s with failed := chain ++ s.failed }
        Substitution.report (variableCycle (chain ++ [name]) raw.span)
        return none
      else
        let (out, ok) ← fill (valueFrom fuel (name :: stack)) raw.span (template raw.text)
        if ok then
          modify fun s => { s with values := (name, out) :: s.values }
          return some out
        else
          modify fun s => { s with failed := name :: s.failed }
          return none

/-- The fuel that looking for a value needs. -/
def Variables.fuel (v : Variables) : Nat := v.texts.length + 2

def variableValue (name : String) : Substitution (Option String) := do
  valueFrom (← get).fuel [] name

/-- A text with its placeholders replaced, and whether all of them have values.
`span` is the place of the text. -/
def substitute (text : String) (span : Span) : Substitution (String × Bool) := do
  fill (valueFrom (← get).fuel []) span (template text)

end Netlist
