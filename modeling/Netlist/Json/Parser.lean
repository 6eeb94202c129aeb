import Netlist.Json.Basic
import Netlist.Text.Quoted

/-!
# Reading JSON

`Json.read` reads one value with blanks around it.  An error names the first
character that cannot stand where it is and what was expected there, or the
escape that no text may hold, or says that the text ends too early.  A code unit
of a surrogate pair that stands alone is read as the replacement character.

Along with the value comes the first number past the largest double, if there is
one, with the way to it.  Whether that matters is for the caller to say.
-/

namespace Netlist.Json

/-- Why a text is not JSON. -/
inductive ParseError where
  | endOfInput
  | invalid (c : Char) (place : String)
  | escape (bytes : Bytes)
  | tooDeep
  deriving Repr

/-- An escape as messages show it: between backticks, or between double quotes if
something in it cannot be shown as it is. -/
def shownEscape (bytes : Bytes) : String :=
  let plain (c : Char) : Bool :=
    c != '\x60' && c != ' ' && c != Bytes.replacement && Text.isPrintable c
  if bytes.chars.all fun c => plain c.1 then "\x60" ++ bytes.toText ++ "\x60"
  else Text.quotedBytes bytes

def ParseError.message : ParseError → String
  | .endOfInput => "unexpected end of JSON input"
  | .invalid c place => "invalid character " ++ Text.quotedDelimiter c ++ " " ++ place
  | .escape bytes => "invalid escape sequence " ++ shownEscape bytes ++ " in string"
  | .tooDeep => "exceeded max depth"

/-- A number past the largest double. -/
structure LargeNumber where
  /-- How it is written. -/
  text : String
  /-- The keys and indices that lead to it. -/
  path : List String := []
  deriving DecidableEq, Repr

/-- The number as a container sees it: one step further away. -/
def LargeNumber.under (step : String) (n : LargeNumber) : LargeNumber :=
  { n with path := step :: n.path }

/-- What was read at the front of a text. -/
structure Reading where
  value : Json
  /-- The first number in it past the largest double. -/
  large : Option LargeNumber := none
  /-- What follows the value. -/
  rest : List Char

/-- Whether a character is a blank between tokens. -/
def isSpace (c : Char) : Bool := c == ' ' || c == '\t' || c == '\n' || c == '\r'

/-- What is left after the blanks. -/
def skipSpaces (cs : List Char) : List Char := cs.dropWhile isSpace

/-- What is left after the letters of a literal.  `read` holds those seen. -/
def expectLetters (name : String) : List Char → List Char → Except ParseError (List Char)
  | [], cs => .ok cs
  | _ :: _, [] => .error .endOfInput
  | w :: ws, c :: cs =>
    if c == w then expectLetters name ws cs
    else
      .error (.invalid c ("in literal " ++ name ++ " (expecting " ++ Text.quotedDelimiter w ++ ")"))

/-- The value of four hexadecimal digits. -/
def hexUnit? : Bytes → Option Nat
  | [a, b, c, d] => do
    let digit (x : UInt8) : Option Nat := Bytes.hexValue? (Char.ofNat x.toNat)
    return (((← digit a) * 16 + (← digit b)) * 16 + (← digit c)) * 16 + (← digit d)
  | _ => none

/-- The code unit that four digits after a backslash and a `u` give.  A text that ends
among the digits ends too early. -/
def readUnit (cs : List Char) : Except ParseError (Nat × List Char) :=
  let digits := (Bytes.ofString (String.ofList (cs.take 4))).take 4
  match hexUnit? digits with
  | some n => .ok (n, cs.drop 4)
  | none =>
    let isHex (x : UInt8) : Bool := (Bytes.hexValue? (Char.ofNat x.toNat)).isSome
    if digits.length < 4 && digits.all isHex then .error .endOfInput
    else .error (.escape (0x5C :: 0x75 :: digits))

/-- A code unit as a character, if it is no half of a surrogate pair. -/
def unitChar (n : Nat) : Char :=
  if 0xD800 ≤ n && n ≤ 0xDFFF then Bytes.replacement else Char.ofNat n

/-- The rest of a text after its opening quote: the characters and what follows
the closing quote.  `half` is the first half of a surrogate pair that was read
just before. -/
def readString : (fuel : Nat) → (half : Option Nat) → (acc : List Char) → List Char →
    Except ParseError (String × List Char)
  | 0, _, _, _ => .error .endOfInput
  | _ + 1, _, _, [] => .error .endOfInput
  | fuel + 1, half, acc, c :: cs =>
    let acc' := if half.isSome then Bytes.replacement :: acc else acc
    if c == '"' then .ok (String.ofList acc'.reverse, cs)
    else if c == '\\' then
      match cs with
      | [] => .error .endOfInput
      | e :: rest =>
        match e with
        | 'b' => readString fuel none ('\x08' :: acc') rest
        | 'f' => readString fuel none ('\x0c' :: acc') rest
        | 'n' => readString fuel none ('\n' :: acc') rest
        | 'r' => readString fuel none ('\r' :: acc') rest
        | 't' => readString fuel none ('\t' :: acc') rest
        | '"' => readString fuel none ('"' :: acc') rest
        | '\\' => readString fuel none ('\\' :: acc') rest
        | '/' => readString fuel none ('/' :: acc') rest
        | 'u' => do
          let (n, rest) ← readUnit rest
          match half with
          | some h =>
            if 0xDC00 ≤ n && n ≤ 0xDFFF then
              let joined := 0x10000 + (h - 0xD800) * 1024 + (n - 0xDC00)
              readString fuel none (Char.ofNat joined :: acc) rest
            else if 0xD800 ≤ n && n ≤ 0xDBFF then readString fuel (some n) acc' rest
            else readString fuel none (Char.ofNat n :: acc') rest
          | none =>
            if 0xD800 ≤ n && n ≤ 0xDBFF then readString fuel (some n) acc rest
            else readString fuel none (unitChar n :: acc) rest
        | _ => .error (.escape (0x5C :: (Bytes.ofString (String.singleton e)).take 1))
    else if c.toNat < 0x20 then .error (.invalid c "in string")
    else readString fuel none (c :: acc') cs

def isDigit (c : Char) : Bool := Decimal.isDigit c

/-- The digits at the front and what follows. -/
def spanDigits (cs : List Char) : List Char × List Char :=
  (cs.takeWhile isDigit, cs.dropWhile isDigit)

/-- One or more digits at the front. -/
def readDigits (cs : List Char) : Except ParseError (List Char × List Char) :=
  match cs with
  | [] => .error .endOfInput
  | c :: _ => if isDigit c then .ok (spanDigits cs) else .error (.invalid c "in numeric literal")

/-- Whether a minus sign stands at the front, and what follows it. -/
def readMinus : List Char → Bool × List Char
  | '-' :: rest => (true, rest)
  | cs => (false, cs)

/-- The digits before the point.  A zero at the front is the only one. -/
def readWhole : List Char → Except ParseError (List Char × List Char)
  | '0' :: rest => .ok (['0'], rest)
  | cs => readDigits cs

/-- The digits after a point, none without one. -/
def readFraction : List Char → Except ParseError (List Char × List Char)
  | '.' :: rest => readDigits rest
  | cs => .ok ([], cs)

/-- The sign of an exponent, and what follows it. -/
def readExponentSign : List Char → Bool × List Char
  | '+' :: rest => (false, rest)
  | cs => readMinus cs

/-- The exponent after the letter for it, zero without one.  Of a long exponent only the first
digits count (`Decimal.readExponent`). -/
def readPower : List Char → Except ParseError (Int × List Char)
  | [] => .ok (0, [])
  | c :: rest =>
    if c == 'e' || c == 'E' then do
      let (minus, rest) := readExponentSign rest
      let (digits, rest) ← readDigits rest
      let n := Int.ofNat (Decimal.readExponent digits)
      return (if minus then -n else n, rest)
    else .ok (0, c :: rest)

def readNumber (cs : List Char) : Except ParseError (JsonNumber × List Char) := do
  let (negative, cs) := readMinus cs
  let (whole, cs) ← readWhole cs
  let (fraction, cs) ← readFraction cs
  let (power, cs) ← readPower cs
  return (⟨negative, Nat.ofDigitChars 10 (whole ++ fraction) 0,
    power - Int.ofNat fraction.length⟩, cs)

/-- How deep values may be nested. -/
def maxDepth : Nat := 10000

/-- A number at the front, as a value. -/
def readNumeric (cs : List Char) : Except ParseError Reading := do
  let (n, rest) ← readNumber cs
  let large :=
    if n.toBinary64.overflows then
      some { text := String.ofList (cs.take (cs.length - rest.length)) }
    else none
  return ⟨.num n, large, rest⟩

mutual

/-- A value at the front, after blanks. -/
def readValue : (fuel depth : Nat) → List Char → Except ParseError Reading
  | 0, _, _ => .error .endOfInput
  | fuel + 1, depth, cs =>
    match skipSpaces cs with
    | [] => .error .endOfInput
    | '\x7b' :: rest =>
      if maxDepth ≤ depth then .error .tooDeep
      else match skipSpaces rest with
        | '\x7d' :: rest => .ok ⟨.obj [], none, rest⟩
        | rest => readMembers fuel (depth + 1) [] none rest
    | '[' :: rest =>
      if maxDepth ≤ depth then .error .tooDeep
      else match skipSpaces rest with
        | ']' :: rest => .ok ⟨.arr [], none, rest⟩
        | rest => readItems fuel (depth + 1) [] none rest
    | '"' :: rest => do
      let (s, rest) ← readString (rest.length + 1) none [] rest
      return ⟨.str s, none, rest⟩
    | 't' :: rest => do return ⟨.bool true, none, ← expectLetters "true" ['r', 'u', 'e'] rest⟩
    | 'f' :: rest => do
      return ⟨.bool false, none, ← expectLetters "false" ['a', 'l', 's', 'e'] rest⟩
    | 'n' :: rest => do return ⟨.null, none, ← expectLetters "null" ['u', 'l', 'l'] rest⟩
    | c :: rest =>
      if c == '-' || isDigit c then readNumeric (c :: rest)
      else .error (.invalid c "looking for beginning of value")

/-- The items of a list up to its end. -/
def readItems : (fuel depth : Nat) → (acc : List Json) → (large : Option LargeNumber) → List Char →
    Except ParseError Reading
  | 0, _, _, _, _ => .error .endOfInput
  | fuel + 1, depth, acc, large, cs => do
    let item ← readValue fuel depth cs
    let large := large <|> item.large.map (·.under (Decimal.ofNat acc.length))
    match skipSpaces item.rest with
    | [] => .error .endOfInput
    | ',' :: rest => readItems fuel depth (item.value :: acc) large rest
    | ']' :: rest => return ⟨.arr (item.value :: acc).reverse, large, rest⟩
    | c :: _ => .error (.invalid c "after array element")

/-- The members of an object up to its end. -/
def readMembers : (fuel depth : Nat) → (acc : List (String × Json)) → (large : Option LargeNumber) →
    List Char → Except ParseError Reading
  | 0, _, _, _, _ => .error .endOfInput
  | fuel + 1, depth, acc, large, cs =>
    match skipSpaces cs with
    | [] => .error .endOfInput
    | '"' :: rest => do
      let (key, rest) ← readString (rest.length + 1) none [] rest
      match skipSpaces rest with
      | [] => .error .endOfInput
      | ':' :: rest => do
        let member ← readValue fuel depth rest
        let large := large <|> member.large.map (·.under key)
        match skipSpaces member.rest with
        | [] => .error .endOfInput
        | ',' :: rest => readMembers fuel depth ((key, member.value) :: acc) large rest
        | '\x7d' :: rest => return ⟨.obj ((key, member.value) :: acc).reverse, large, rest⟩
        | c :: _ => .error (.invalid c "after object key:value pair")
      | c :: _ => .error (.invalid c "after object key")
    | c :: _ => .error (.invalid c "looking for beginning of object key string")

end

/-- Reads one value that fills the whole text. -/
def readAll (cs : List Char) : Except ParseError Reading := do
  let reading ← readValue (2 * cs.length + 2) 0 cs
  match skipSpaces reading.rest with
  | [] => return reading
  | c :: _ => .error (.invalid c "after top-level value")

/-- Reads one value that fills the whole text, with the first number past the largest
double. -/
def read (s : String) : Except ParseError (Json × Option LargeNumber) :=
  (readAll s.toList).map fun r => (r.value, r.large)

/-- Reads one value that fills the whole text. -/
def parse (s : String) : Except ParseError Json := (read s).map (·.1)

end Netlist.Json
