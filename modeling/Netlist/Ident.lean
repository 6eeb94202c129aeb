import Netlist.Text.Bytes
import Netlist.Text.Decimal
import Std.Data.ExtTreeMap

/-!
# Identifiers

Everything in a netlist has an identifier: a letter for its kind and a number
that counts the things of that kind in the order they were met.  Identifiers
read from outside may be any bytes.
-/

namespace Netlist

/-- The kind of an identifier: the byte in front of its number. -/
structure IdKind where
  byte : UInt8
  deriving DecidableEq, Repr, Hashable

namespace IdKind

def module_ : IdKind := ⟨109⟩

def device : IdKind := ⟨100⟩

def instance_ : IdKind := ⟨105⟩

def net : IdKind := ⟨110⟩

def endpoint : IdKind := ⟨101⟩

def expression : IdKind := ⟨120⟩

def name (k : IdKind) : String :=
  if k == module_ then "module"
  else if k == device then "device"
  else if k == instance_ then "instance"
  else if k == net then "net"
  else if k == endpoint then "endpoint"
  else if k == expression then "expr"
  else "unknown"

end IdKind

/-- An identifier.  The empty one names nothing. -/
structure Ident where
  bytes : Bytes
  deriving DecidableEq, Repr, Hashable

namespace Ident

/-- The identifier of nothing. -/
def none : Ident := ⟨[]⟩

def ofText (s : String) : Ident := ⟨Bytes.ofString s⟩

def text (i : Ident) : String := i.bytes.toText

/-- Whether the identifier names something. -/
def isValid (i : Ident) : Bool := !i.bytes.isEmpty

/-- The kind: the first byte, zero for the empty identifier. -/
def kind (i : Ident) : IdKind := ⟨i.bytes.headD 0⟩

/-- The number, zero when there is none that fits in 32 bits. -/
def number (i : Ident) : UInt32 :=
  (Decimal.readUInt32? (i.bytes.tail.map fun b => Char.ofNat b.toNat)).getD 0

/-- Whether one identifier stands before another: by kind, then by number. -/
def before (a b : Ident) : Bool :=
  if a.kind != b.kind then a.kind.byte < b.kind.byte else a.number < b.number

def ofNumber (k : IdKind) (n : UInt32) : Ident :=
  ⟨k.byte :: (Nat.toDigits 10 n.toNat).map Char.toUInt8⟩

/-- The order of identifiers: by kind, then by number.  Different identifiers with the
same kind and number are told apart by their bytes. -/
def compare : Ident → Ident → Ordering :=
  compareLex (compareOn fun i => i.kind.byte)
    (compareLex (compareOn number) (compareOn Ident.bytes))

instance : Std.TransCmp compare :=
  inferInstanceAs (Std.TransCmp
    (compareLex (compareOn fun i => i.kind.byte)
      (compareLex (compareOn number) (compareOn Ident.bytes))))

instance : Std.LawfulEqCmp compare where
  eq_of_compare {a b} h := by
    simp only [compare, compareLex, compareOn, Ordering.then_eq_eq] at h
    have ht : a.bytes = b.bytes := Std.LawfulEqCmp.eq_of_compare h.2.2
    cases a
    cases b
    simp_all

end Ident

/-- Things by identifier, in the order of the identifiers. -/
abbrev IdMap (α : Type) := Std.ExtTreeMap Ident α Ident.compare

/-- How many identifiers of each kind have been given out. -/
structure Allocator where
  /-- The last number of each kind; the first entry of a kind counts. -/
  last : List (IdKind × UInt32) := []

namespace Allocator

/-- The last number of a kind, zero before the first. -/
def lastOf (a : Allocator) (k : IdKind) : UInt32 := (a.last.lookup k).getD 0

def next (a : Allocator) (k : IdKind) : Ident × Allocator :=
  let n := a.lastOf k + 1
  (Ident.ofNumber k n, ⟨(k, n) :: a.last.filter fun e => e.1 != k⟩)

/-- How many identifiers of a kind have been given out. -/
def count (a : Allocator) (k : IdKind) : Nat := (a.lastOf k).toNat

end Allocator

end Netlist
