/-!
# Sets of characters as ranges

A property of characters that a standard lists by code point is kept as a list
of inclusive ranges in increasing order.  A character has the property when one
range holds it.
-/

namespace Netlist.Text

/-- Inclusive ranges of code points, in increasing order. -/
abbrev Ranges := List (Nat × Nat)

def Ranges.holds (ranges : Ranges) (c : Char) : Bool :=
  ranges.any fun r => r.1 ≤ c.toNat && c.toNat ≤ r.2

end Netlist.Text
