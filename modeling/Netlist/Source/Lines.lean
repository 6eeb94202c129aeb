import Netlist.Text.Bytes

/-!
# Lines and positions

A line ends at a line feed.  The line index of a content lists the offsets of
its line feeds.  A position is a line and a column, both counted from one, the
column in bytes.  Offsets are turned into positions and back through the index.
-/

namespace Netlist

/-- A line and a column, both counted from one. -/
structure Position where
  line : UInt32
  column : UInt32
  deriving DecidableEq, Repr

def Position.none : Position := ⟨0, 0⟩

namespace Lines

def lineFeed : UInt8 := 10

/-- The offsets of the line feeds of a content that starts at `offset`. -/
def indexFrom : (offset : UInt32) → Bytes → List UInt32
  | _, [] => []
  | offset, b :: rest =>
    if b == lineFeed then offset :: indexFrom (offset + 1) rest else indexFrom (offset + 1) rest

/-- The offsets of the line feeds of a content. -/
def index (content : Bytes) : List UInt32 := indexFrom 0 content

/-- The offset where a line starts, if there is such a line. -/
def start? (index : List UInt32) (line : UInt32) : Option UInt32 :=
  if line ≤ 1 then some 0 else index[(line - 2).toNat]?.map (· + 1)

/-- The position of an offset: past as many lines as there are line feeds before
it. -/
def position (index : List UInt32) (offset : UInt32) : Position :=
  let before := (index.takeWhile (· < offset)).length
  let line := UInt32.ofNat (before + 1)
  ⟨line, offset - (start? index line).getD 0 + 1⟩

/-- The offset of a position, kept inside a content of the given size. -/
def offset (index : List UInt32) (size : Nat) (pos : Position) : UInt32 :=
  if pos.line == 0 then 0
  else
    let limit := UInt32.ofNat size
    match start? index pos.line with
    | none => limit
    | some s => min (if 0 < pos.column then s + (pos.column - 1) else s) limit

/-- A line of a content without its line feed; nothing past the last one. -/
def line (content : Bytes) (index : List UInt32) (n : UInt32) : Bytes :=
  if n == 0 then []
  else
    match start? index n with
    | none => []
    | some s =>
      let stop := index[(n - 1).toNat]?.getD (UInt32.ofNat content.length)
      if stop < s then [] else (content.drop s.toNat).take (stop.toNat - s.toNat)

end Lines

end Netlist
