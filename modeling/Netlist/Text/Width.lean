import Netlist.Text.CharWidth
import Netlist.Text.ClusterClass

/-!
# Widths of texts on a screen

A text is cut into clusters, and a cluster is as wide as its first character
that takes a column.  The bytes of a line may be cut inside a character, so
everything here starts from bytes.  They are read in units: a character, or a
run of bytes that begins like one and breaks off.  Where the bytes end before a
character does, what is left belongs to the last cluster.
-/

namespace Netlist.Text

/-- A unit of a byte string: the bytes and the class they have. -/
structure ClusterUnit where
  bytes : Bytes
  /-- The class of the character, `other` for broken bytes. -/
  kind : ClusterClass
  /-- Whether the bytes end inside the unit. -/
  cut : Bool := false
  deriving Repr

/-- How many bytes the sequence that starts with a byte has. -/
def sequenceLength (b : UInt8) : Nat :=
  if b < 0xC2 then 1 else if b < 0xE0 then 2 else if b < 0xF0 then 3 else if b < 0xF8 then 4 else 1

/-- The number of bytes of the unit in front of non-empty bytes, or nothing if
the bytes end inside it. -/
def unitLength? : Bytes → Option Nat
  | [] => none
  | b :: rest =>
    let wanted := sequenceLength b
    if rest.length + 1 < wanted then none
    else some (min wanted (1 + (rest.takeWhile Bytes.isContinuation).length))

/-- The units of the bytes.  `skip` counts bytes at the front that the last unit
has used up. -/
def clusterUnitsFrom : (skip : Nat) → Bytes → List ClusterUnit
  | _, [] => []
  | skip + 1, _ :: rest => clusterUnitsFrom skip rest
  | 0, b :: rest =>
    match unitLength? (b :: rest) with
    | none => [⟨b :: rest, .other, true⟩]
    | some n =>
      let bytes := (b :: rest).take n
      let kind :=
        match Bytes.headChar? bytes with
        | some (c, size) => if size == n then clusterClass c else .other
        | none => .other
      ⟨bytes, kind, false⟩ :: clusterUnitsFrom (n - 1) rest

def clusterUnits (bytes : Bytes) : List ClusterUnit := clusterUnitsFrom 0 bytes

/-- What is known of the cluster read so far. -/
structure ClusterState where
  /-- The class of the last unit. -/
  last : ClusterClass
  /-- The class of the last unit that is no extending mark. -/
  lastBase : ClusterClass := .other
  /-- The one before `lastBase`. -/
  beforeBase : ClusterClass := .other
  /-- How many pairs of regional letters were seen. -/
  regionals : Nat := 0

/-- The state after a unit of class `current` joined the cluster. -/
def ClusterState.push (s : ClusterState) (current : ClusterClass) : ClusterState :=
  { s with last := current }

/-- The state with the last unit counted among the bases, if it is one. -/
def ClusterState.settle (s : ClusterState) : ClusterState :=
  if s.last == .extend then s else { s with beforeBase := s.lastBase, lastBase := s.last }

/-- Whether a unit of class `current` belongs to the cluster before it. -/
def ClusterState.joins (s : ClusterState) (current : ClusterClass) : Bool :=
  let isEnd (k : ClusterClass) : Bool := k == .control || k == .carriageReturn || k == .lineFeed
  if s.last == .carriageReturn && current == .lineFeed then true
  else if isEnd s.last || isEnd current then false
  else if s.last == .leading && (current == .leading || current == .vowel ||
      current == .openSyllable || current == .closedSyllable) then true
  else if (s.last == .openSyllable || s.last == .vowel) &&
      (current == .vowel || current == .trailing) then true
  else if (s.last == .closedSyllable || s.last == .trailing) && current == .trailing then true
  else if current == .extend || current == .joiner || current == .spacing then true
  else if s.last == .prepend then true
  else if current == .pictograph && s.last == .joiner && s.beforeBase == .pictograph then true
  else current == .regional && s.last == .regional && s.regionals % 2 == 0

/-- Cuts units into clusters.  `cluster` holds the current one, last unit first. -/
def clustersFrom :
    (cluster : List ClusterUnit) → ClusterState → List ClusterUnit → List (List ClusterUnit)
  | cluster, _, [] => [cluster.reverse]
  | cluster, s, u :: rest =>
    let s := s.settle
    let pairs := if u.kind == .regional && s.last == .regional then s.regionals + 1 else s.regionals
    if u.cut || s.joins u.kind then
      clustersFrom (u :: cluster) { s.push u.kind with regionals := pairs } rest
    else cluster.reverse :: clustersFrom [u] { last := u.kind } rest

/-- The clusters of the bytes, in order. -/
def clusters (bytes : Bytes) : List (List ClusterUnit) :=
  match clusterUnits bytes with
  | [] => []
  | u :: rest => clustersFrom [u] { last := u.kind } rest

/-- The width of a cluster: that of its first character that takes a column. -/
def clusterWidth (cluster : List ClusterUnit) : Nat :=
  let widths := cluster.flatMap fun u => u.bytes.chars.map fun c => charWidth c.1
  (widths.find? (0 < ·)).getD 0

def bytesWidth (bytes : Bytes) : Nat :=
  (clusters bytes).foldl (fun total c => total + clusterWidth c) 0

def textWidth (s : String) : Nat := bytesWidth (Bytes.ofString s)

/-- The clusters at the front that fit into a width. -/
def takeWidth : (width : Nat) → List (List ClusterUnit) → List (List ClusterUnit)
  | _, [] => []
  | width, c :: rest =>
    let w := clusterWidth c
    if width < w then [] else c :: takeWidth (width - w) rest

/-- A text cut to a width, with a tail that shows that something is missing.  A
text that fits stays as it is. -/
def truncateTo (width : Nat) (tail s : String) : String :=
  if textWidth s ≤ width then s
  else if width < textWidth tail then tail
  else
    let kept := takeWidth (width - textWidth tail) (clusters (Bytes.ofString s))
    Bytes.toText (kept.flatMap fun c => c.flatMap (·.bytes)) ++ tail

/-- A text filled with spaces on the right up to a width. -/
def fillRight (width : Nat) (s : String) : String :=
  s ++ String.ofList (List.replicate (width - textWidth s) ' ')

/-- A text filled with spaces on the left up to a number of characters. -/
def padLeft (count : Nat) (s : String) : String :=
  String.ofList (List.replicate (count - s.length) ' ') ++ s

/-- A text filled with spaces on the right up to a number of characters. -/
def padRight (count : Nat) (s : String) : String :=
  s ++ String.ofList (List.replicate (count - s.length) ' ')

end Netlist.Text
