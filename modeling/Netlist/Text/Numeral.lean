import Netlist.Text.Decimal

/-!
# Numerals with a base

A whole number as people write it on a command line: an optional sign, then digits in
base ten, or in another base after `0b`, `0o`, `0x` or a plain `0`.  An underscore may
stand between two digits.  The number has to fit in 64 signed bits.
-/

namespace Netlist.Numeral

/-- Why a text spells no number. -/
inductive Fault where
  /-- It is no numeral. -/
  | malformed
  /-- The number is too large or too small. -/
  | outOfRange
  deriving DecidableEq, Repr

/-- The base that the letter after a zero stands for. -/
def letterBase? (c : Char) : Option Nat :=
  if c == 'b' || c == 'B' then some 2
  else if c == 'o' || c == 'O' then some 8
  else if c == 'x' || c == 'X' then some 16
  else none

/-- The base of a numeral, whether a letter names it, and the digits. -/
def splitBase : List Char → Nat × Bool × List Char
  | '0' :: c :: d :: rest =>
    match letterBase? c with
    | some base => (base, true, d :: rest)
    | none => (8, false, '0' :: c :: d :: rest)
  | '0' :: rest => (8, false, '0' :: rest)
  | cs => (10, false, cs)

def digit? (base : Nat) (c : Char) : Option Nat :=
  let value :=
    if Decimal.isDigit c then some (c.toNat - '0'.toNat)
    else if 'a' ≤ c && c ≤ 'z' then some (c.toNat - 'a'.toNat + 10)
    else if 'A' ≤ c && c ≤ 'Z' then some (c.toNat - 'A'.toNat + 10)
    else none
  value.filter (· < base)

/-- Reads digits after those of `n`.  Underscores are skipped.  A number that leaves 64
bits is refused at the digit where it does so. -/
def readDigits (base : Nat) : (n : Nat) → List Char → Except Fault Nat
  | n, [] => .ok n
  | n, c :: rest =>
    if c == '_' then readDigits base n rest
    else
      match digit? base c with
      | none => .error .malformed
      | some d =>
        let next := n * base + d
        if 0x10000000000000000 ≤ next then .error .outOfRange else readDigits base next rest

/-- Whether every underscore stands after a digit and before one. -/
def wellSeparated : (afterDigit : Bool) → List Char → Bool
  | _, [] => true
  | afterDigit, c :: rest =>
    if c == '_' then
      afterDigit && (match rest with
        | [] => false
        | d :: _ => d != '_') && wellSeparated false rest
    else wellSeparated true rest

def readUnsigned (cs : List Char) : Except Fault Nat :=
  if cs.isEmpty then .error .malformed
  else
    let (base, lettered, digits) := splitBase cs
    match readDigits base 0 digits with
    | .error f => .error f
    | .ok n => if wellSeparated lettered digits then .ok n else .error .malformed

/-- Puts a sign on a number and checks that it fits. -/
def withSign (negative : Bool) (r : Except Fault Nat) : Except Fault Int :=
  match r with
  | .error f => .error f
  | .ok n =>
    let value : Int := if negative then -n else n
    if Decimal.fitsInt64 value then .ok value else .error .outOfRange

def read (s : String) : Except Fault Int :=
  match s.toList with
  | '-' :: cs => withSign true (readUnsigned cs)
  | '+' :: cs => withSign false (readUnsigned cs)
  | cs => withSign false (readUnsigned cs)

example : (read "0x1_f").toOption = some 31 := by decide
example : (read "-017").toOption = some (-15) := by decide
example : (read "1__0").toOption = none := by decide

end Netlist.Numeral
