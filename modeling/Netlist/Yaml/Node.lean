import Netlist.Yaml.Token

/-!
# YAML nodes

A document is a tree of scalars, lists and maps.  An alias refers to a node that
was given an anchor; the anchored nodes are kept in a table beside the tree, so a
node may refer to one that it is part of.
-/

namespace Netlist.Yaml

/-- Where a node starts: line and column, counted in characters from one.  A node
without a place has line zero. -/
structure Place where
  line : Int
  column : Int
  deriving DecidableEq, Repr

/-- A scalar node. -/
structure Scalar where
  place : Place
  /-- Its tag, empty if it has none. -/
  tag : String := ""
  /-- How it is written. -/
  style : Style := .plain
  text : String
  deriving DecidableEq, Repr

/-- The namespace of the tags that start with two exclamation marks. -/
def coreTags : String := "tag:yaml.org,2002:"

def shortTag (tag : String) : String :=
  match tag.dropPrefix? coreTags with
  | some rest => "!!" ++ rest.toString
  | none => tag

/-- Whether a scalar stands for nothing: a plain one that is empty or spells null,
or any one that is tagged so. -/
def Scalar.isNull (s : Scalar) : Bool :=
  if s.tag == "" || s.tag == "!" then
    s.style == .plain && ["", "~", "null", "Null", "NULL"].contains s.text
  else shortTag s.tag == "!!null"

/-- A node of a document. -/
inductive Node where
  | scalar (s : Scalar)
  | list (place : Place) (items : List Node)
  /-- A map, in order. -/
  | map (place : Place) (members : List (Node × Node))
  /-- A reference to the anchored node with a number. -/
  | alias (target : Nat)
  /-- A node of no kind. -/
  | empty (place : Place)

/-- A document: the tree and the anchored nodes by number. -/
structure Tree where
  root : Node
  anchored : List (Nat × Node) := []

/-- The node that a node stands for.  A chain of aliases is followed as far as
there are anchored nodes. -/
def Tree.follow (anchored : List (Nat × Node)) : (fuel : Nat) → Node → Option Node
  | 0, .alias _ => none
  | fuel + 1, .alias target =>
    match anchored.lookup target with
    | some n => Tree.follow anchored fuel n
    | none => none
  | _, n => some n

/-- The node that a node stands for, none for an alias without a target. -/
def Tree.resolve (d : Tree) (n : Node) : Option Node :=
  Tree.follow d.anchored (d.anchored.length + 1) n

end Netlist.Yaml
