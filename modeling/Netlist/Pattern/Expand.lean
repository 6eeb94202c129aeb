import Netlist.Pattern.Parse
import Std.Data.TreeMap

/-!
# Expanding pattern expressions

An expression stands for a list of atoms.  Each segment contributes the ordered
product of its groups, the last group running fastest; the segments follow one
another.  The number of atoms is limited, and no atom may occur twice.

An expression with one segment has axes, one per group.  An axis tells for each
value of its group where it stands in the group.
-/

namespace Netlist.Pattern

/-- A name that an expression stands for. -/
structure Atom where
  literal : String
  /-- The text of the segment before its first group. -/
  base : String
  segment : Nat
  /-- The values of the groups, from left to right. -/
  parts : List Part
  deriving DecidableEq, Repr

/-- A group of an expression with one segment, as a coordinate. -/
structure Axis where
  /-- The named pattern of the group. -/
  id : Option String
  /-- The number of values. -/
  length : Nat
  /-- Where each value stands. -/
  index : List (Part × Nat)
  deriving DecidableEq, Repr

/-- Where a value stands on an axis. -/
def Axis.ordinal? (a : Axis) (p : Part) : Option Nat := a.index.lookup p

/-- The name of an axis, empty for a group without one. -/
def Axis.name (a : Axis) : String := a.id.getD ""

/-- What an expression stands for. -/
structure Expansion where
  raw : String
  /-- Whether it has more than one segment. -/
  isSpliced : Bool := false
  /-- Whether it is one segment without groups. -/
  isLiteral : Bool := false
  /-- The atoms, in order. -/
  atoms : List Atom
  /-- The axes, one per group; none for several segments. -/
  axes : List Axis
  deriving Repr

namespace Expansion

def literals (e : Expansion) : List String := e.atoms.map (·.literal)

def length (e : Expansion) : Nat := e.atoms.length

/-- The names of the axes, empty for groups without one. -/
def axisNames (e : Expansion) : List String := e.axes.map (·.name)

/-- Whether there is a group and every group refers to a named pattern. -/
def isFullyNamed (e : Expansion) : Bool :=
  !e.isSpliced && !e.axes.isEmpty && e.axes.all (·.id.isSome)

end Expansion

/-! ## The product of the groups -/

/-- An atom in the making: the text so far and the values so far, last one first. -/
structure Draft where
  text : String := ""
  parts : List Part := []

def Draft.addText (d : Draft) (s : String) : Draft := { d with text := d.text ++ s }

/-- The draft with another value. -/
def Draft.addPart (d : Draft) (p : Part) : Draft := ⟨d.text ++ p.text, p :: d.parts⟩

/-- The drafts after some pieces, unless there would be more than `budget`. -/
def expandPieces (budget : Nat) : List Draft → List Piece → Option (List Draft)
  | drafts, [] => if budget < drafts.length then none else some drafts
  | drafts, .text s :: rest => expandPieces budget (drafts.map (·.addText s)) rest
  | drafts, .group g :: rest =>
    if !g.items.isEmpty && budget / g.items.length < drafts.length then none
    else expandPieces budget (drafts.flatMap fun d => g.items.map d.addPart) rest

/-- The atoms of a segment, unless there would be more than `budget`. -/
def expandSegment (budget number : Nat) (s : Segment) : Option (List Atom) :=
  (expandPieces budget [{}] s.pieces).map fun drafts =>
    drafts.map fun d => ⟨d.text, s.baseName, number, d.parts.reverse⟩

/-- The atoms of segments from a number on, unless there would be more than
`budget`. -/
def expandSegments : (budget number : Nat) → List Segment → Option (List Atom)
  | _, _, [] => some []
  | budget, number, s :: rest => do
    let atoms ← expandSegment budget number s
    let more ← expandSegments (budget - atoms.length) (number + 1) rest
    return atoms ++ more

/-! ## Repeated atoms -/

/-- The texts that occur again, each where it stands for the second time.
`seen` counts what came before. -/
def repeatedFrom (seen : Std.TreeMap String Nat) : List String → List String
  | [] => []
  | s :: rest =>
    let n := seen.getD s 0 + 1
    if n == 2 then s :: repeatedFrom (seen.insert s n) rest else repeatedFrom (seen.insert s n) rest

/-- The texts that occur more than once, in the order of their second places. -/
def repeated (texts : List String) : List String := repeatedFrom ∅ texts

/-- How many repeated atoms a message shows. -/
def shownRepeats : Nat := 5

/-! ## Axes and expansions -/

def axisOf (g : Group) : Axis := ⟨g.axis, g.items.length, g.items.zipIdx⟩

/-- Expands an expression that has been read. -/
def expandParsed (o : Options) (e : Expression) : Logged (Option Expansion) :=
  match expandSegments o.limit 0 e.segments with
  | none => ⟨none, [(Problem.tooManyAtoms e.raw o.limit).at_ o.span]⟩
  | some atoms =>
    match repeated (atoms.map (·.literal)) with
    | [] =>
      let axes := match e.segments with
        | [s] => s.groups.map axisOf
        | _ => []
      ⟨some ⟨e.raw, e.isSpliced, e.isLiteral, atoms, axes⟩, []⟩
    | repeats =>
      let shown := repeats.take shownRepeats
      ⟨none, [(Problem.duplicateAtoms e.raw shown (repeats.length - shown.length)).at_ o.span]⟩

/-- Reads and expands an expression. -/
def expand (o : Options) (raw : String) : Logged (Option Expansion) := do
  match ← parse o raw with
  | none => return none
  | some e => expandParsed o e

end Netlist.Pattern
