import Netlist.Pattern.Expand
import Std.Data.HashMap

/-!
# Binding endpoints to nets

The atoms of an endpoint expression are bound to the atoms of a net expression.
When both are made of named patterns only, they are aligned by their axes: the
axes of the net are found in order among those of the endpoint, and an endpoint
atom goes to the net atom with the same values on the shared axes.  A net of one
atom takes every endpoint atom.  Otherwise the two lists are paired by place.
-/

namespace Netlist.Axis

open Pattern (Atom Axis Expansion)

/-- How a binding was found. -/
inductive Mode where
  /-- The net has one atom. -/
  | scalar
  /-- The atoms were aligned by named axes. -/
  | axis
  /-- The atoms were paired by place. -/
  | positional
  deriving DecidableEq, Repr

def Mode.name : Mode → String
  | .scalar => "scalar"
  | .axis => "axis"
  | .positional => "positional"

/-- For each endpoint atom, the number of its net atom. -/
structure Binding where
  /-- How it was found. -/
  mode : Mode
  /-- The numbers of the net atoms. -/
  netIndex : List Nat
  deriving DecidableEq, Repr

/-- Why two expansions cannot be bound. -/
inductive Problem where
  | missingAxis (axis net endpoint : String) (endpointAxes : List String)
  | lengthMismatch (axis net : String) (netLength : Nat) (endpoint : String) (endpointLength : Nat)
  | valueOffAxis (atom : String)
  | duplicateCoordinate (first second : String)
  | unmatched (atom net : String)
  | expansionLength (net : String) (netLength : Nat) (endpoint : String) (endpointLength : Nat)
  deriving DecidableEq, Repr

def Problem.code : Problem → Code
  | missingAxis _ _ _ _ => .missingAxis
  | lengthMismatch _ _ _ _ _ => .axisLengthMismatch
  | valueOffAxis _ => .valueOffAxis
  | duplicateCoordinate _ _ => .duplicateCoordinate
  | unmatched _ _ => .unmatchedCoordinate
  | expansionLength _ _ _ _ => .expansionLengthMismatch

def Problem.message : Problem → String
  | missingAxis axis net endpoint axes =>
    "axis " ++ Text.quoted axis ++ " of net " ++ Text.quoted net ++ " is missing from endpoint " ++
      Text.quoted endpoint ++ " (endpoint axes: " ++ ", ".intercalate axes ++ ")"
  | lengthMismatch axis net netLength endpoint endpointLength =>
    "axis " ++ Text.quoted axis ++ " has length " ++ Decimal.ofNat netLength ++ " in net " ++
      Text.quoted net ++ " but " ++ Decimal.ofNat endpointLength ++ " in endpoint " ++
      Text.quoted endpoint
  | valueOffAxis atom => "net atom " ++ Text.quoted atom ++ " has a value outside its axes"
  | duplicateCoordinate first second =>
    "net atoms " ++ Text.quoted first ++ " and " ++ Text.quoted second ++ " share one coordinate"
  | unmatched atom net =>
    "endpoint atom " ++ Text.quoted atom ++ " has no matching atom in net " ++ Text.quoted net
  | expansionLength net netLength endpoint endpointLength =>
    "net " ++ Text.quoted net ++ " expands to " ++ Decimal.ofNat netLength ++
      " atoms but endpoint " ++ Text.quoted endpoint ++ " expands to " ++
      Decimal.ofNat endpointLength

def Problem.at_ (p : Problem) (span : Span) : Diagnostic := .error p.code span p.message

/-- Whether two expansions are aligned by their axes. -/
def eligible (net endpoint : Expansion) : Bool := net.isFullyNamed && endpoint.isFullyNamed

/-- The leftmost places of names in a list from place `from_` on, in order, or the
first name that has none. -/
def embed : (names : List String) → (from_ : Nat) → (among : List String) → Except String (List Nat)
  | [], _, _ => .ok []
  | n :: _, _, [] => .error n
  | n :: names, k, a :: among =>
    if a == n then (embed names (k + 1) among).map (k :: ·) else embed (n :: names) (k + 1) among

/-- The ordinals of values on axes, taken at the given places.  There is none when
a place is past the values or a value is not on its axis. -/
def coordinate (parts : List Part) : List (Nat × Axis) → Option (List Nat)
  | [] => some []
  | (place, axis) :: rest => do
    let part ← parts[place]?
    let ord ← axis.ordinal? part
    let more ← coordinate parts rest
    return ord :: more

/-- The net atoms by coordinate, or why there is no such table. -/
def coordinates (axes : List (Nat × Axis)) :
    (table : Std.HashMap (List Nat) (Nat × Atom)) → List (Atom × Nat) →
      Except Problem (Std.HashMap (List Nat) (Nat × Atom))
  | table, [] => .ok table
  | table, (a, i) :: rest =>
    match coordinate a.parts axes with
    | none => .error (.valueOffAxis a.literal)
    | some key =>
      match table[key]? with
      | some (_, first) => .error (.duplicateCoordinate first.literal a.literal)
      | none => coordinates axes (table.insert key (i, a)) rest

/-- The net atom of an endpoint atom. -/
def project (net : Expansion) (axes : List (Nat × Axis))
    (table : Std.HashMap (List Nat) (Nat × Atom)) (a : Atom) : Except Problem Nat :=
  match (coordinate a.parts axes).bind (table[·]?) with
  | some (i, _) => .ok i
  | none => .error (.unmatched a.literal net.raw)

/-- The shared axes that differ in length. -/
def lengthProblems (net endpoint : Expansion) (places : List Nat) : List Problem :=
  (net.axes.zip places).filterMap fun (axis, place) =>
    let other := (endpoint.axes[place]?.map (·.length)).getD 0
    if axis.length == other then none
    else some (.lengthMismatch axis.name net.raw axis.length endpoint.raw other)

/-- Aligns an endpoint to a net by their named axes, or says what is in the way. -/
def align (net endpoint : Expansion) : Except (List Problem) Binding := do
  let places ←
    match embed net.axisNames 0 endpoint.axisNames with
    | .ok places => Except.ok places
    | .error axis =>
      Except.error [Problem.missingAxis axis net.raw endpoint.raw endpoint.axisNames]
  match lengthProblems net endpoint places with
  | [] =>
    let own := (net.axes.zipIdx).map fun (axis, k) => (k, axis)
    match coordinates own ∅ net.atoms.zipIdx with
    | .error p => .error [p]
    | .ok table =>
      match endpoint.atoms.mapM (project net (places.zip net.axes) table) with
      | .ok netIndex => .ok ⟨.axis, netIndex⟩
      | .error p => .error [p]
  | problems => .error problems

/-- Aligns an endpoint to a net by their named axes. -/
def bind (net endpoint : Expansion) (span : Span) : Logged (Option Binding) :=
  match align net endpoint with
  | .ok b => ⟨some b, []⟩
  | .error problems => ⟨none, problems.map (·.at_ span)⟩

/-- Binds an endpoint to a net.  An endpoint of one atom on a net of several is a
mismatch of lengths. -/
def bindOrPair (net endpoint : Expansion) (span : Span) : Logged (Option Binding) :=
  if net.length == 1 then ⟨some ⟨.scalar, List.replicate endpoint.length 0⟩, []⟩
  else if eligible net endpoint then bind net endpoint span
  else if endpoint.length != net.length then
    ⟨none, [(Problem.expansionLength net.raw net.length endpoint.raw endpoint.length).at_ span]⟩
  else ⟨some ⟨.positional, List.range endpoint.length⟩, []⟩

end Netlist.Axis
