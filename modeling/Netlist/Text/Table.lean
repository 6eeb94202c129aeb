import Netlist.Text.Bytes
import Netlist.Text.Ranges

/-!
# Tables of code points

What a standard lists by code point is kept as text.  Code points are written in
hexadecimal, and blanks or line breaks stand between the entries.
-/

namespace Netlist.Text

def tableEntries (text : String) : List (List Char) :=
  (text.toList.splitOnP fun c => c == ' ' || c == '\n').filter fun entry => !entry.isEmpty

def codePoint (digits : List Char) : Nat :=
  digits.foldl (fun n c => n * 16 + (Bytes.hexValue? c).getD 0) 0

/-- The digits of a code point in full.  Fewer digits than the code point before has leave out
the leading ones that are the same. -/
def fullDigits (before digits : List Char) : List Char :=
  before.take (before.length - digits.length) ++ digits

/-- Adds a range to those before it, last one first, next to the digits of the last code
point. -/
def Ranges.push (done : List Char × Ranges) (entry : List Char) : List Char × Ranges :=
  let ends := entry.splitOn '-'
  let first := fullDigits done.1 (ends.headD [])
  let last := fullDigits first (ends.getLastD [])
  (last, (codePoint first, codePoint last) :: done.2)

/-- The ranges of a table.  A range is written as `41-5A`, and a single code point as
`5F`. -/
def Ranges.read (text : String) : Ranges :=
  ((tableEntries text).foldl Ranges.push ([], [])).2.reverse

example : Ranges.read "41-5A F 2C6-D1 E0-4" =
    [(0x41, 0x5A), (0x5F, 0x5F), (0x2C6, 0x2D1), (0x2E0, 0x2E4)] := by
  decide +kernel

end Netlist.Text
