import Netlist.Text.Decimal

/-!
# Parts

A part is the value that one group contributes to an atom: a literal from an
enumeration or a number from a range.  The literal `1` and the number `1` are
different parts.
-/

namespace Netlist

/-- The value that a group contributes to an atom. -/
inductive Part where
  | literal (text : String)
  | number (value : Int)
  /-- No value, as a stored netlist may hold it. -/
  | unset
  deriving DecidableEq, Repr, Hashable

namespace Part

/-- The part as it stands inside an atom. -/
def text : Part → String
  | .literal s => s
  | .number n => Decimal.ofInt n
  | .unset => ""

/-- The number of a part, zero for a literal. -/
def value : Part → Int
  | .number n => n
  | _ => 0

def isNumber : Part → Bool
  | .number _ => true
  | _ => false

def sameKind : Part → Part → Bool
  | .literal _, .literal _ => true
  | .number _, .number _ => true
  | .unset, .unset => true
  | _, _ => false

end Part

end Netlist
