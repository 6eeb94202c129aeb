/-!
# Decimal numbers

Numbers are written in decimal without padding, a minus sign in front of the
negative ones.  Reading takes an optional sign and at least one digit, and
nothing else.
-/

namespace Netlist.Decimal

/-- The decimal digits of a natural number. -/
def ofNat (n : Nat) : String := Nat.repr n

/-- A number in decimal, with a minus sign if it is negative. -/
def ofInt : Int → String
  | .ofNat n => ofNat n
  | .negSucc n => "-" ++ ofNat (n + 1)

def isDigit (c : Char) : Bool := '0' ≤ c && c ≤ '9'

/-- The number that one or more decimal digits spell. -/
def readNat? (cs : List Char) : Option Nat :=
  if !cs.isEmpty && cs.all isDigit then some (Nat.ofDigitChars 10 cs 0) else none

/-- The number that an optional sign and decimal digits spell. -/
def readInt? : List Char → Option Int
  | '-' :: cs => (readNat? cs).map fun n => -Int.ofNat n
  | '+' :: cs => (readNat? cs).map Int.ofNat
  | cs => (readNat? cs).map Int.ofNat

/-- The exponent that decimal digits spell.  Digits after one of 10000 or more are passed
over. -/
def readExponent (cs : List Char) : Nat :=
  cs.foldl (fun e c => if e < 10000 then e * 10 + (c.toNat - '0'.toNat) else e) 0

/-- Whether a number fits in 64 signed bits. -/
def fitsInt64 (n : Int) : Bool := -0x8000000000000000 ≤ n && n < 0x8000000000000000

/-- The number a text spells, if it fits in 64 signed bits. -/
def readInt64? (cs : List Char) : Option Int := (readInt? cs).filter fitsInt64

/-- The number a text spells without a sign, if it fits in 32 bits. -/
def readUInt32? (cs : List Char) : Option UInt32 :=
  ((readNat? cs).filter (· < 0x100000000)).map UInt32.ofNat

/-- An integer taken modulo 2⁶⁴ into the signed range. -/
def wrap64 (n : Int) : Int := Int.bmod n 0x10000000000000000

theorem readNat?_toDigits (n : Nat) : readNat? (Nat.toDigits 10 n) = some n := by
  have hne : (Nat.toDigits 10 n).isEmpty = false := by
    simp
  have hall : (Nat.toDigits 10 n).all isDigit = true := by
    rw [List.all_eq_true]
    intro c hc
    have h := Nat.isDigit_of_mem_toDigits (by decide) (by decide) hc
    simpa [isDigit, Char.isDigit, Char.le_def] using h
  simp [readNat?, hne, hall, Nat.ofDigitChars_ten_toDigits]

end Netlist.Decimal
