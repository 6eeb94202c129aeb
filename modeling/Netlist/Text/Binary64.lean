import Netlist.Text.Decimal

/-!
# Binary floating point, exactly

A finite double is `mantissa · 2 ^ exponent` with a sign.  `Binary64.nearest`
rounds a quotient of natural numbers to the nearest double, a tie going to the
even mantissa, in exact arithmetic.  Sums and quotients of doubles are the
rounded exact results.  Two texts are written from a double: the fewest decimal
digits that read back as it, and a fixed number of places, where the exact value
is rounded and a tie goes to the even digit.
-/

namespace Netlist

/-- A finite double: its sign, its mantissa below 2⁵³ and its exponent of two. -/
structure Binary64 where
  /-- Whether the value is below zero, or is the zero below zero. -/
  negative : Bool
  mantissa : Nat
  exponent : Int
  deriving DecidableEq, Repr

namespace Binary64

def zero : Binary64 := ⟨false, 0, 0⟩

/-- A quotient rounded to the nearest natural number, a tie to the even one. -/
def roundHalfEven (num den : Nat) : Nat :=
  let q := num / den
  let r := num % den
  if 2 * r < den then q
  else if den < 2 * r then q + 1
  else if q % 2 == 0 then q else q + 1

/-- The quotient `num / den` scaled by `2 ^ (-e)`, as numerator and denominator. -/
def scaled (num den : Nat) (e : Int) : Nat × Nat :=
  if 0 ≤ e then (num, den * Nat.pow 2 e.toNat) else (num * Nat.pow 2 (-e).toNat, den)

/-- The greatest `e` with `2 ^ e ≤ num / den`, for positive arguments. -/
def floorLog2 (num den : Nat) : Int :=
  let guess : Int := Int.ofNat num.log2 - Int.ofNat den.log2
  let fits (e : Int) : Bool := let s := scaled num den e; s.2 ≤ s.1
  if fits (guess + 1) then guess + 1 else if fits guess then guess else guess - 1

/-- The double nearest to `num / den`, a tie going to the even mantissa. -/
def nearest (negative : Bool) (num den : Nat) : Binary64 :=
  if num == 0 || den == 0 then ⟨negative, 0, 0⟩
  else
    let e := max (floorLog2 num den - 52) (-1074)
    let s := scaled num den e
    let m := roundHalfEven s.1 s.2
    if m == 0x20000000000000 then ⟨negative, 0x10000000000000, e + 1⟩ else ⟨negative, m, e⟩

/-- Whether the value is past the largest double. -/
def overflows (x : Binary64) : Bool := 0 < x.mantissa && 971 < x.exponent

/-- The double nearest to an integer. -/
def ofInt (n : Int) : Binary64 := nearest (n < 0) n.natAbs 1

/-- A value past the largest double. -/
def infinite (negative : Bool) : Binary64 := ⟨negative, 1, 972⟩

/-- The double nearest to `digits · 10 ^ power`.  The number of digits tells at once
when it is past the largest double or next to zero. -/
def ofDecimal (negative : Bool) (digits : Nat) (power : Int) : Binary64 :=
  let top := power + Int.ofNat (digits.log2 * 30103 / 100000)
  if digits == 0 || top < -700 then ⟨negative, 0, 0⟩
  else if 700 < top then infinite negative
  else if 0 ≤ power then nearest negative (digits * Nat.pow 10 power.toNat) 1
  else nearest negative digits (Nat.pow 10 (-power).toNat)

/-- The absolute value as a quotient of natural numbers. -/
def magnitude (x : Binary64) : Nat × Nat :=
  if 0 ≤ x.exponent then (x.mantissa * Nat.pow 2 x.exponent.toNat, 1)
  else (x.mantissa, Nat.pow 2 (-x.exponent).toNat)

/-- The value cut to an integer toward zero. -/
def truncate (x : Binary64) : Int :=
  let m := x.magnitude
  let n := Int.ofNat (m.1 / m.2)
  if x.negative then -n else n

/-- The value cut toward zero into 64 signed bits.  A value that does not fit
becomes the least number. -/
def toInt64 (x : Binary64) : Int :=
  let n := x.truncate
  if Decimal.fitsInt64 n then n else -0x8000000000000000

/-- The rounded sum of two doubles.  A sum past the largest double is infinite, and a
finite double added to it changes nothing. -/
def add (x y : Binary64) : Binary64 :=
  if x.overflows then x else if y.overflows then y else
  let mx := x.magnitude
  let my := y.magnitude
  let nx : Int := if x.negative then -Int.ofNat (mx.1 * my.2) else Int.ofNat (mx.1 * my.2)
  let ny : Int := if y.negative then -Int.ofNat (my.1 * mx.2) else Int.ofNat (my.1 * mx.2)
  let n := nx + ny
  if n == 0 then ⟨x.negative && y.negative, 0, 0⟩ else nearest (n < 0) n.natAbs (mx.2 * my.2)

/-- The rounded quotient of two doubles, for a divisor that is not zero. -/
def div (x y : Binary64) : Binary64 :=
  let mx := x.magnitude
  let my := y.magnitude
  nearest (x.negative != y.negative) (mx.1 * my.2) (mx.2 * my.1)

/-! ## The fewest digits -/

/-- The greatest `e` with `10 ^ e ≤ num / den`, for positive arguments. -/
def floorLog10 (num den : Nat) : Int :=
  let fits (e : Int) : Bool :=
    if 0 ≤ e then den * Nat.pow 10 e.toNat ≤ num else den ≤ num * Nat.pow 10 (-e).toNat
  let guess : Int := (floorLog2 num den * 30103).fdiv 100000
  if fits (guess + 1) then guess + 1 else if fits guess then guess else guess - 1

/-- Compares `a · 10 ^ e` with the quotient `num / den`. -/
def compareDecimal (a : Nat) (e : Int) (num den : Nat) : Ordering :=
  if 0 ≤ e then compare (a * Nat.pow 10 e.toNat * den) num
  else compare (a * den) (num * Nat.pow 10 (-e).toNat)

/-- The interval of reals that round to the value, as two quotients over one
denominator.  Below a power of two the gap is half as wide. -/
def interval (x : Binary64) : Nat × Nat × Nat :=
  let m := x.mantissa
  let down := if m == 0x10000000000000 && -1074 < x.exponent then 1 else 2
  if 0 ≤ x.exponent then
    let unit := Nat.pow 2 x.exponent.toNat
    (4 * m * unit - down * unit, 4 * m * unit + 2 * unit, 4)
  else
    (4 * m - down, 4 * m + 2, 4 * Nat.pow 2 (-x.exponent).toNat)

/-- Whether `a · 10 ^ e` rounds to the value. -/
def readsBack (x : Binary64) (a : Nat) (e : Int) : Bool :=
  let (lo, hi, den) := x.interval
  let even := x.mantissa % 2 == 0
  (match compareDecimal a e lo den with
    | .gt => true
    | .eq => even
    | .lt => false) &&
  (match compareDecimal a e hi den with
    | .lt => true
    | .eq => even
    | .gt => false)

/-- The first grid, from `digits` digits on, with a neighbour of the value that
reads back: the digits and the power of ten. -/
def shortestFrom (x : Binary64) (top : Int) : (tries digits : Nat) → Nat × Int
  | 0, _ => (0, 0)
  | tries + 1, digits =>
    let e := top - Int.ofNat digits + 1
    let (num, den) := x.magnitude
    let below :=
      if 0 ≤ e then num / (den * Nat.pow 10 e.toNat) else num * Nat.pow 10 (-e).toNat / den
    let low := x.readsBack below e && below != 0
    let high := x.readsBack (below + 1) e
    if low && high then
      -- of two hits the nearer one; a tie goes to the even digit
      match compareDecimal (2 * below + 1) e (2 * num) den with
      | .gt => (below, e)
      | .lt => (below + 1, e)
      | .eq => if below % 2 == 0 then (below, e) else (below + 1, e)
    else if low then (below, e)
    else if high then (below + 1, e)
    else shortestFrom x top tries (digits + 1)

/-- The fewest decimal digits that read back as the absolute value, with the
power of ten of the last one. -/
def shortest (x : Binary64) : Nat × Int :=
  if x.mantissa == 0 then (0, 0)
  else
    let (num, den) := x.magnitude
    shortestFrom x (floorLog10 num den) 17 1

/-! ## A fixed number of places -/

/-- A natural number with `places` digits after the point. -/
def withPoint (places n : Nat) : String :=
  let digits := Nat.toDigits 10 n
  let padded := List.replicate (places + 1 - digits.length) '0' ++ digits
  let whole := padded.take (padded.length - places)
  let rest := padded.drop (padded.length - places)
  if places == 0 then String.ofList whole else String.ofList (whole ++ '.' :: rest)

/-- The value with a fixed number of places, a tie going to the even digit.  A value past
the largest double is written as infinite, always with its sign. -/
def fixed (places : Nat) (x : Binary64) : String :=
  if x.overflows then (if x.negative then "-Inf" else "+Inf") else
  let (num, den) := x.magnitude
  let text := withPoint places (roundHalfEven (num * Nat.pow 10 places) den)
  if x.negative then "-" ++ text else text

end Binary64

end Netlist
