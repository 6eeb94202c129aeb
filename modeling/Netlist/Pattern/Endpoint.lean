import Netlist.Pattern.Expand

/-!
# Endpoints

An endpoint names a port of an instance: `instance.port`.  An endpoint
expression expands to atoms that each hold exactly one point with something on
both sides.
-/

namespace Netlist.Pattern

/-- An atom that names a port of an instance. -/
structure EndpointAtom where
  atom : Atom
  /-- The name of the instance. -/
  inst : String
  port : String
  deriving DecidableEq, Repr

/-- Splits an atom at its point, or says what is wrong with it. -/
def splitEndpoint (raw : String) (a : Atom) : Except Problem EndpointAtom :=
  match a.literal.toList.splitOn '.' with
  | [inst, port] =>
    if inst.isEmpty || port.isEmpty then .error (.endpointHalf a.literal raw)
    else .ok ⟨a, String.ofList inst, String.ofList port⟩
  | _ => .error (.endpointDots a.literal raw)

/-- Reads and expands an endpoint expression.  One bad atom takes the whole
expansion away. -/
def expandEndpoint (o : Options) (raw : String) :
    Logged (Option (Expansion × List EndpointAtom)) := do
  match ← expand o raw with
  | none => return none
  | some e =>
    match e.atoms.mapM (splitEndpoint raw) with
    | .ok atoms => return some (e, atoms)
    | .error p =>
      Logged.report (p.at_ o.span)
      return none

end Netlist.Pattern
