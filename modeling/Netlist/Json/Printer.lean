import Netlist.Json.Basic
import Netlist.Text.Quoted

/-!
# Writing JSON

Two forms are written: one line without blanks, and an indented form with two
blanks a level, one member a line and a blank after the colon.  Texts escape the
characters that a page or a script could read as its own: angle brackets, the
ampersand and the two Unicode line separators.  Numbers are written out below
10²¹ and from 10⁻⁶ on, with an exponent otherwise.
-/

namespace Netlist

namespace JsonNumber

/-- The digits of a number without the zeros at its end, with the power of ten. -/
def normalDigits : (fuel n : Nat) → (power : Int) → Nat × Int
  | 0, n, power => (n, power)
  | fuel + 1, n, power =>
    if n != 0 && n % 10 == 0 then normalDigits fuel (n / 10) (power + 1) else (n, power)

/-- A number in decimal: positional unless it is very large or very small. -/
def render (x : JsonNumber) : String :=
  let (n, power) := normalDigits (Nat.toDigits 10 x.digits).length x.digits x.power
  let digits := Nat.toDigits 10 n
  -- the value is 0.d₁d₂… times ten to this power
  let point : Int := Int.ofNat digits.length + power
  let body : List Char :=
    if n == 0 then ['0']
    else if point ≤ -6 || 21 < point then
      let e := point - 1
      let mantissa := match digits with
        | [] => []
        | [d] => [d]
        | d :: rest => d :: '.' :: rest
      let sign := if e < 0 then '-' else '+'
      mantissa ++ 'e' :: sign :: Nat.toDigits 10 e.natAbs
    else if point ≤ 0 then '0' :: '.' :: (List.replicate point.natAbs '0' ++ digits)
    else if digits.length ≤ point.toNat then
      digits ++ List.replicate (point.toNat - digits.length) '0'
    else digits.take point.toNat ++ '.' :: digits.drop point.toNat
  String.ofList (if x.negative then '-' :: body else body)

end JsonNumber

namespace Json

/-- How a character is written inside a text. -/
def escapedChar (c : Char) : List Char :=
  match c.toNat with
  | 0x22 => ['\\', '"']
  | 0x5C => ['\\', '\\']
  | 0x08 => ['\\', 'b']
  | 0x0C => ['\\', 'f']
  | 0x0A => ['\\', 'n']
  | 0x0D => ['\\', 'r']
  | 0x09 => ['\\', 't']
  | n =>
    if n < 0x20 || n == 0x3C || n == 0x3E || n == 0x26 || n == 0x2028 || n == 0x2029 then
      '\\' :: 'u' :: Text.hexPadded 4 n
    else [c]

/-- A text between double quotes. -/
def renderString (s : String) : String :=
  String.ofList ('"' :: (s.toList.flatMap escapedChar ++ ['"']))

mutual

/-- A value on one line. -/
def compact : Json → String
  | .null => "null"
  | .bool true => "true"
  | .bool false => "false"
  | .num n => n.render
  | .str s => renderString s
  | .arr items => "[" ++ ",".intercalate (compactItems items) ++ "]"
  | .obj members => "\x7b" ++ ",".intercalate (compactMembers members) ++ "\x7d"

def compactItems : List Json → List String
  | [] => []
  | v :: rest => compact v :: compactItems rest

/-- The members of an object, each on one line. -/
def compactMembers : List (String × Json) → List String
  | [] => []
  | (key, v) :: rest => (renderString key ++ ":" ++ compact v) :: compactMembers rest

end

/-- A line break and the blanks of a level. -/
def newline (level : Nat) : String := String.ofList ('\n' :: List.replicate (2 * level) ' ')

mutual

def indentedAt (level : Nat) : Json → String
  | .null => "null"
  | .bool true => "true"
  | .bool false => "false"
  | .num n => n.render
  | .str s => renderString s
  | .arr [] => "[]"
  | .arr (v :: rest) =>
    "[" ++ ",".intercalate (indentedItems (level + 1) (v :: rest)) ++ newline level ++ "]"
  | .obj [] => "\x7b\x7d"
  | .obj (m :: rest) =>
    "\x7b" ++ ",".intercalate (indentedMembers (level + 1) (m :: rest)) ++ newline level ++ "\x7d"

/-- The items of a list, each on a line of its own. -/
def indentedItems (level : Nat) : List Json → List String
  | [] => []
  | v :: rest => (newline level ++ indentedAt level v) :: indentedItems level rest

/-- The members of an object, each on a line of its own. -/
def indentedMembers (level : Nat) : List (String × Json) → List String
  | [] => []
  | (key, v) :: rest =>
    (newline level ++ renderString key ++ ": " ++ indentedAt level v) :: indentedMembers level rest

end

/-- A value over several lines, with a line break at the end. -/
def document (v : Json) : String := indentedAt 0 v ++ "\n"

end Json

end Netlist
