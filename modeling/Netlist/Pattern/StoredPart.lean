import Netlist.MessagePack.Reader
import Netlist.MessagePack.Writer
import Netlist.Pattern.Part

/-!
# Stored parts

A part is stored in MessagePack as a bare text or number.  The bytes of a stored
text are kept as they are, so what is read can be written again unchanged even
when it is not well-formed text.
-/

namespace Netlist.Stored

/-- A part as it is stored. -/
inductive Part where
  | literal (bytes : Bytes)
  | number (value : Int)
  | unset

namespace Part

def ofPart : Netlist.Part → Part
  | .literal s => literal (Bytes.ofString s)
  | .number n => number n
  | .unset => unset

def toPart : Part → Netlist.Part
  | literal bytes => .literal bytes.toText
  | number n => .number n
  | unset => .unset

/-- The part in MessagePack.  One without a value is written as an empty text. -/
def toMessagePack : Part → MessagePack.Value
  | literal bytes => .text bytes
  | number n => .int n
  | unset => .text []

open MessagePack in
/-- Reads a part from MessagePack. -/
def reader : Reader Part := do
  match ← Reader.loose (← Reader.depth) with
  | .nil => return unset
  | .text bytes => return literal bytes
  | .int n => return number n
  | .bool => Reader.fail (.unexpectedPart "bool")
  | .float => Reader.fail (.unexpectedPart "float64")
  | .list => Reader.fail (.unexpectedPart "[]interface \x7b\x7d")
  | .map => Reader.fail (.unexpectedPart "map[string]interface \x7b\x7d")
  | .time => Reader.fail (.unexpectedPart "time.Time")

end Part

end Netlist.Stored
