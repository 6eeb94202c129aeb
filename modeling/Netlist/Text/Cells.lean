import Netlist.Text.CellClass
import Netlist.Text.ClusterClass

/-!
# Cells of a terminal

How many cells a text takes when a terminal draws it.  Controls below the space and
escape sequences take none, and another ASCII character takes one.  Where a further
character stands the whole cluster that starts there is measured: its first
character and then the marks, letters and pictures that join it.

Escape sequences are recognised byte by byte (`EscapeState.next`).  Inside a
device or system command every byte belongs to the command until it ends, and
one of the bytes that end it also occurs inside characters.
-/

namespace Netlist.Text

/-! ## Clusters -/

/-- What the end of a cluster lets join it. -/
inductive ClusterEnd where
  | plain
  /-- A carriage return, which a line feed joins. -/
  | carriageReturn
  /-- A control, which nothing joins. -/
  | control
  /-- A leading letter of a syllable. -/
  | leading
  /-- A syllable that ends in a vowel. -/
  | openSyllable
  /-- A syllable that ends in a trailing letter. -/
  | closedSyllable
  /-- A character that belongs to what follows. -/
  | prepend
  | picture
  /-- A picture and a joiner, which another picture joins. -/
  | joined
  | oddRegionals
  | evenRegionals
  deriving DecidableEq, Repr

namespace ClusterEnd

/-- The end after a character that is looked at alone. -/
def ofClass : ClusterClass → ClusterEnd
  | .carriageReturn => carriageReturn
  | .lineFeed | .control => control
  | .leading => leading
  | .vowel | .openSyllable => openSyllable
  | .trailing | .closedSyllable => closedSyllable
  | .prepend => prepend
  | .pictograph => picture
  | .regional => oddRegionals
  | .other | .extend | .joiner | .spacing => plain

def join? (e : ClusterEnd) (k : ClusterClass) : Option ClusterEnd :=
  match e, k with
  | carriageReturn, .lineFeed => some control
  | carriageReturn, _ | control, _ | _, .carriageReturn | _, .lineFeed | _, .control => none
  | leading, .leading => some leading
  | leading, .vowel | leading, .openSyllable | openSyllable, .vowel => some openSyllable
  | leading, .closedSyllable | openSyllable, .trailing | closedSyllable, .trailing =>
    some closedSyllable
  | picture, .extend => some picture
  | picture, .joiner => some joined
  | joined, .pictograph => some picture
  | oddRegionals, .regional => some evenRegionals
  | _, .extend | _, .joiner | _, .spacing => some plain
  | prepend, k => some (ofClass k)
  | _, _ => none

end ClusterEnd

/-- The cells of a character of a class, looked at alone. -/
def charCells (c : Char) : ClusterClass → Nat
  | .control | .carriageReturn | .lineFeed | .extend | .joiner => 0
  | .regional => 2
  | .pictograph => if colourPictureRanges.holds c then 2 else 1
  | _ =>
    if c.toNat == 0x2E3A then 3
    else if c.toNat == 0x2E3B then 4
    else if fullWidthRanges.holds c then 2
    else 1

/-- The cells of a cluster after a character joined it.  A selector decides how the
first picture is drawn; regional letters and syllables are as wide as their start. -/
def joinedCells (first : ClusterClass) (cells : Nat) (c : Char) (k : ClusterClass) : Nat :=
  match first with
  | .pictograph => if c.toNat == 0xFE0E then 1 else if c.toNat == 0xFE0F then 2 else cells
  | .regional | .leading => cells
  | _ => cells + charCells c k

/-- The bytes and the cells of a cluster, given what is read of it so far. -/
def clusterCellsFrom (first : ClusterClass) :
    (e : ClusterEnd) → (bytes cells : Nat) → List (Char × Nat) → Nat × Nat
  | _, bytes, cells, [] => (bytes, cells)
  | e, bytes, cells, (c, size) :: rest =>
    let k := clusterClass c
    match e.join? k with
    | none => (bytes, cells)
    | some e => clusterCellsFrom first e (bytes + size) (joinedCells first cells c k) rest

/-- The bytes and the cells of the cluster in front. -/
def clusterCells : List (Char × Nat) → Nat × Nat
  | [] => (0, 0)
  | (c, size) :: rest =>
    let k := clusterClass c
    clusterCellsFrom k (.ofClass k) size (charCells c k) rest

/-! ## Escape sequences -/

/-- Where in an escape sequence a byte stands. -/
inductive EscapeState where
  /-- Outside of every sequence. -/
  | ground
  | escape
  /-- After an intermediate byte of an escape. -/
  | escapeMiddle
  /-- Among the parameters of a control sequence. -/
  | control
  /-- After an intermediate byte of a control sequence. -/
  | controlMiddle
  /-- At the start of a device command. -/
  | device
  | deviceParameters
  /-- After an intermediate byte of a device command. -/
  | deviceMiddle
  | deviceText
  | system
  /-- In a message that is not for the screen. -/
  | message
  deriving DecidableEq, Repr

namespace EscapeState

/-- Whether a byte is a control that a sequence may hold. -/
def isInnerControl (b : UInt8) : Bool := b < 0x20 && b != 0x18 && b != 0x1A && b != 0x1B

/-- What a byte does in every state that has no rule of its own for it. -/
def anywhere (b : UInt8) : EscapeState :=
  if b == 0x1B then escape
  else if b == 0x90 then device
  else if b == 0x98 || b == 0x9E || b == 0x9F then message
  else if b == 0x9B then control
  else if b == 0x9D then system
  else ground

/-- The state after a byte that starts no character outside ASCII. -/
def next (s : EscapeState) (b : UInt8) : EscapeState :=
  let middle := 0x20 ≤ b && b < 0x30
  let parameter := 0x30 ≤ b && b < 0x40
  let final := 0x40 ≤ b && b < 0x7F
  let stays := isInnerControl b || b == 0x7F
  match s with
  | ground => anywhere b
  | escape =>
    if stays then escape
    else if middle then escapeMiddle
    else if b == 0x50 then device
    else if b == 0x5B then control
    else if b == 0x5D then system
    else if b == 0x58 || b == 0x5E || b == 0x5F then message
    else anywhere b
  | escapeMiddle => if stays || middle then escapeMiddle else anywhere b
  | control => if stays || parameter then control else if middle then controlMiddle else anywhere b
  | controlMiddle => if stays || middle then controlMiddle else anywhere b
  | device =>
    if (0x08 ≤ b && b < 0x0E) || b == 0x1B || final then deviceText
    else if stays then device
    else if middle then deviceMiddle
    else if parameter then deviceParameters
    else anywhere b
  | deviceParameters =>
    if stays || parameter then deviceParameters
    else if middle then deviceMiddle
    else if final then deviceText
    else anywhere b
  | deviceMiddle =>
    if stays || middle then deviceMiddle
    else if parameter || final then deviceText
    else anywhere b
  | deviceText => if isInnerControl b || (0x20 ≤ b && b != 0x9C) then deviceText else anywhere b
  | system =>
    if b == 0x07 then ground
    else if isInnerControl b || (0x20 ≤ b && b != 0x9C) then system
    else anywhere b
  | message => if isInnerControl b || (0x20 ≤ b && b < 0x80) then message else anywhere b

/-- Whether a character outside ASCII starts with the byte, where no command holds it. -/
def startsCharacter (s : EscapeState) (b : UInt8) : Bool :=
  s != deviceText && s != system && 0xC2 ≤ b && b < 0xF5

end EscapeState

/-- The cells of the bytes.  `skip` counts bytes at the front that the last cluster
has used up. -/
def cellsFrom : (s : EscapeState) → (skip : Nat) → Bytes → Nat
  | _, _, [] => 0
  | s, skip + 1, _ :: rest => cellsFrom s skip rest
  | s, 0, b :: rest =>
    if s.startsCharacter b then
      let (bytes, cells) := clusterCells (Bytes.chars (b :: rest))
      cells + cellsFrom .ground (bytes - 1) rest
    else
      let drawn := if s == .ground && 0x20 ≤ b && b < 0x80 then 1 else 0
      drawn + cellsFrom (s.next b) 0 rest

/-- The number of cells that a text takes. -/
def cells (s : String) : Nat := cellsFrom .ground 0 (Bytes.ofString s)

end Netlist.Text
