import Netlist.Pattern.Part

/-!
# Pattern expressions

An expression is one or more segments.  A segment is text with groups in it; a
group is a place where values are put in turn.  `d[1:0]` has a text and a group
with two values.
-/

namespace Netlist.Pattern

/-- The two notations of a group. -/
inductive GroupKind where
  | enumeration
  | range
  deriving DecidableEq, Repr

/-- A place in a segment where values are put in turn. -/
structure Group where
  kind : GroupKind
  /-- The values, in order. -/
  items : List Part
  /-- The named pattern that the group refers to. -/
  axis : Option String := none
  /-- The byte offset where the group starts. -/
  start : Nat
  /-- The byte offset past its end. -/
  stop : Nat
  deriving DecidableEq, Repr

/-- A piece of a segment. -/
inductive Piece where
  /-- Text that stands for itself. -/
  | text (s : String)
  | group (g : Group)
  deriving DecidableEq, Repr

def Piece.group? : Piece → Option Group
  | .text _ => none
  | .group g => some g

/-- What stands between two separators. -/
structure Segment where
  /-- The pieces, in order. -/
  pieces : List Piece
  /-- The byte offset where the segment starts. -/
  start : Nat
  /-- The byte offset past its end. -/
  stop : Nat
  deriving DecidableEq, Repr

/-- The text before the first group. -/
def Segment.baseName (s : Segment) : String :=
  match s.pieces with
  | .text t :: _ => t
  | _ => ""

/-- The groups of a segment, from left to right. -/
def Segment.groups (s : Segment) : List Group := s.pieces.filterMap Piece.group?

/-- A parsed pattern expression. -/
structure Expression where
  /-- The text it was read from. -/
  raw : String
  /-- The segments, in order. -/
  segments : List Segment
  deriving DecidableEq, Repr

def Expression.isSpliced (e : Expression) : Bool := 1 < e.segments.length

/-- Whether the expression is one segment without groups. -/
def Expression.isLiteral (e : Expression) : Bool :=
  match e.segments with
  | [s] => s.groups.isEmpty
  | _ => false

end Netlist.Pattern
