import Netlist.Text.Binary64
import Netlist.Toml.Lexeme

/-!
# Values of a TOML document

What strings, numbers and dates mean, and the values that a document holds.  Of
floats and dates only that they are valid is kept: nothing here uses their value.
-/

namespace Netlist.Toml

/-- A value.  An array of tables is kept apart from an array that is written in
brackets. -/
inductive Value where
  | text (s : String)
  | integer (n : Int)
  | float
  | boolean (b : Bool)
  | datetime
  | array (items : List Value)
  | tables (items : List (List (String × Value)))
  | table (members : List (String × Value))

/-- The members of a table, in the order in which they were defined. -/
abbrev Table := List (String × Value)

/-- The name of a value's type in messages. -/
def Value.typeName : Value → String
  | text _ => "string"
  | integer _ => "int64"
  | float => "float64"
  | boolean _ => "bool"
  | datetime => "time.Time"
  | array _ => "[]interface \x7b\x7d"
  | tables _ => "[]map[string]interface \x7b\x7d"
  | table _ => "map[string]interface \x7b\x7d"

/-- A value, or what is wrong with the text of it. -/
abbrev Meaning (α : Type) := Except Problem α

/-! ## Strings -/

/-- Leaves out a line break at the front. -/
def stripFirstBreak : List Char → List Char
  | '\n' :: rest => rest
  | '\r' :: '\n' :: rest => rest
  | cs => cs

/-- Whether a character is a blank or belongs to a line break. -/
def isGap (c : Char) : Bool := Scan.isBlank c || Scan.isBreak c

/-- Leaves out each backslash at the end of a line, with the blanks and line breaks after
it. -/
def joinLines : (fuel : Nat) → List Char → List Char
  | 0, cs => cs
  | _, [] => []
  | fuel + 1, '\\' :: '\\' :: rest => '\\' :: '\\' :: joinLines fuel rest
  | fuel + 1, '\\' :: rest =>
    if (rest.takeWhile isGap).contains '\n' then joinLines fuel (rest.dropWhile isGap)
    else '\\' :: joinLines fuel rest
  | fuel + 1, c :: rest => c :: joinLines fuel rest

/-- The character with a number, if it is a scalar value. -/
def scalarValue (digits : List Char) : Meaning Char :=
  let n := digits.foldl (fun n c => n * 16 + (Bytes.hexValue? c).getD 0) 0
  if n < 0xD800 || (0xDFFF < n && n ≤ 0x10FFFF) then .ok (Char.ofNat n)
  else .error (.badScalarValue (String.ofList digits))

/-- Replaces the escapes of a string by the characters that they stand for. -/
def unescape : (fuel : Nat) → List Char → Meaning (List Char)
  | 0, _ => .ok []
  | _, [] => .ok []
  | fuel + 1, '\\' :: 'u' :: rest => do
    let c ← scalarValue (rest.take 4)
    return c :: (← unescape fuel (rest.drop 4))
  | fuel + 1, '\\' :: 'U' :: rest => do
    let c ← scalarValue (rest.take 8)
    return c :: (← unescape fuel (rest.drop 8))
  | fuel + 1, '\\' :: c :: rest =>
    match c with
    | 'b' => return Char.ofNat 8 :: (← unescape fuel rest)
    | 't' => return '\t' :: (← unescape fuel rest)
    | 'n' => return '\n' :: (← unescape fuel rest)
    | 'f' => return Char.ofNat 12 :: (← unescape fuel rest)
    | 'r' => return '\r' :: (← unescape fuel rest)
    | ' ' => .error (.blankEscape c)
    | '\t' => .error (.blankEscape c)
    | c => return c :: (← unescape fuel rest)
  | fuel + 1, c :: rest => return c :: (← unescape fuel rest)

def stringMeaning (raw : String) : Meaning String :=
  return String.ofList (← unescape (raw.length + 1) raw.toList)

/-- What a string with escapes over several lines means. -/
def longStringMeaning (raw : String) : Meaning String :=
  let cs := stripFirstBreak raw.toList
  return String.ofList (← unescape (cs.length + 1) (joinLines (cs.length + 1) cs))

/-! ## Numbers -/

/-- Whether every underscore stands between digits.  `ok` says whether one may come
next. -/
def underscoresOk : (ok : Bool) → List Char → Bool
  | ok, [] => ok
  | ok, c :: rest => !(c == '_' && !ok) && underscoresOk (Lexeme.isDigitOf 16 c) rest

def floatWords : List String := ["nan", "+nan", "-nan", "inf", "-inf", "+inf"]

/-- Whether a number has a zero in front that does not belong there. -/
def hasLeadingZero : List Char → Bool
  | '0' :: c :: _ => !(c == 'b' || c == 'o' || c == 'x')
  | sign :: '0' :: _ :: _ => sign == '-' || sign == '+'
  | _ => false

def digitsValue (base : Nat) (cs : List Char) : Int :=
  Int.ofNat ((cs.filter (· != '_')).foldl (fun n c => n * base + (Bytes.hexValue? c).getD 0) 0)

/-- The number that a text spells. -/
def integerValue : List Char → Int
  | '-' :: rest => - digitsValue 10 rest
  | '+' :: rest => digitsValue 10 rest
  | '0' :: 'x' :: rest => digitsValue 16 rest
  | '0' :: 'o' :: rest => digitsValue 8 rest
  | '0' :: 'b' :: rest => digitsValue 2 rest
  | cs => digitsValue 10 cs

/-- What a whole number means. -/
def integerMeaning (text : String) : Meaning Int :=
  let cs := text.toList
  if !underscoresOk false cs then .error (.badUnderscores "integer" text)
  else if hasLeadingZero cs then .error (.leadingZeros "integer" text)
  else
    let n := integerValue cs
    if Decimal.fitsInt64 n then .ok n else .error (.outOfRange text "int64")

/-- The parts of a float between points and exponent marks. -/
def floatParts (cs : List Char) : List (List Char) :=
  (cs.splitOnP fun c => c == '.' || c == 'e' || c == 'E').filter fun part => !part.isEmpty

/-- Whether a digit follows every point.  `point` says whether one came last. -/
def pointsOk : (point : Bool) → List Char → Bool
  | point, [] => !point
  | point, c :: rest => !(point && !Decimal.isDigit c) && pointsOk (c == '.') rest

def splitSign : List Char → Bool × List Char
  | '-' :: rest => (true, rest)
  | '+' :: rest => (false, rest)
  | cs => (false, cs)

/-- The float that a text spells. -/
def floatValue? (cs : List Char) : Option Binary64 :=
  let (negative, cs) := splitSign cs
  let (whole, rest) := (cs.takeWhile Decimal.isDigit, cs.dropWhile Decimal.isDigit)
  let (fraction, rest) := match rest with
    | '.' :: more => (more.takeWhile Decimal.isDigit, more.dropWhile Decimal.isDigit)
    | rest => ([], rest)
  let mantissa := (digitsValue 10 (whole ++ fraction)).toNat
  let places := Int.ofNat fraction.length
  if (whole ++ fraction).isEmpty then none
  else
    match rest with
    | [] => some (Binary64.ofDecimal negative mantissa (- places))
    | e :: more =>
      let (down, digits) := splitSign more
      if (e == 'e' || e == 'E') && !digits.isEmpty && digits.all Decimal.isDigit then
        let n := Int.ofNat (Decimal.readExponent digits)
        some (Binary64.ofDecimal negative mantissa ((if down then -n else n) - places))
      else none

def floatMeaning (text : String) : Meaning Unit :=
  let cs := text.toList
  let parts := floatParts cs
  let word := floatWords.contains text
  let partOk (part : List Char) : Bool :=
    floatWords.contains (String.ofList part) || underscoresOk false part
  if !parts.all partOk then .error (.badUnderscores "float" text)
  else if hasLeadingZero (parts.head?.getD []) then .error (.leadingZeros "float" text)
  else if !pointsOk false cs then .error (.pointWithoutDigits text)
  else if word then .ok ()
  else
    match floatValue? (cs.filter (· != '_')) with
    | none => .error (.badFloat text)
    | some x => if x.overflows then .error (.outOfRange text "float64") else .ok ()

/-! ## Dates and times -/

def twoDigits? : List Char → Option (Nat × List Char)
  | a :: b :: rest => (Decimal.readNat? [a, b]).map fun n => (n, rest)
  | _ => none

/-- Drops a character that has to be there. -/
def expect? (c : Char) : List Char → Option (List Char)
  | d :: rest => if c == d then some rest else none
  | [] => none

def daysIn (year month : Nat) : Nat :=
  if month == 2 then
    if year % 4 == 0 && (year % 100 != 0 || year % 400 == 0) then 29 else 28
  else if month == 4 || month == 6 || month == 9 || month == 11 then 30
  else 31

def date? (cs : List Char) : Option (List Char) := do
  let year ← if (cs.take 4).length == 4 then Decimal.readNat? (cs.take 4) else none
  let (month, rest) ← twoDigits? (← expect? '-' (cs.drop 4))
  let (day, rest) ← twoDigits? (← expect? '-' rest)
  if 1 ≤ month && month ≤ 12 && 1 ≤ day && day ≤ daysIn year month then some rest else none

/-- Takes the hour, which may have one digit. -/
def hour? : List Char → Option (Nat × List Char)
  | a :: b :: rest =>
    if Decimal.isDigit b then twoDigits? (a :: b :: rest)
    else (Decimal.readNat? [a]).map fun n => (n, b :: rest)
  | [a] => (Decimal.readNat? [a]).map fun n => (n, [])
  | [] => none

/-- Takes a time of day. -/
def time? (cs : List Char) : Option (List Char) := do
  let (hour, rest) ← hour? cs
  let (minute, rest) ← twoDigits? (← expect? ':' rest)
  let (second, rest) ← twoDigits? (← expect? ':' rest)
  if hour < 24 && minute < 60 && second < 60 then
    match rest with
    | '.' :: d :: more =>
      if Decimal.isDigit d then some (more.dropWhile Decimal.isDigit) else some rest
    | _ => some rest
  else none

/-- Takes an offset from universal time. -/
def offset? : List Char → Option (List Char)
  | 'Z' :: rest => some rest
  | sign :: rest => do
    let (hours, rest) ← twoDigits? rest
    let (minutes, rest) ← twoDigits? (← expect? ':' rest)
    if (sign == '+' || sign == '-') && hours ≤ 24 && minutes ≤ 60 then some rest else none
  | [] => none

/-- Whether a text is a date, a time of day, or both with or without an offset. -/
def isDatetime (cs : List Char) : Bool :=
  let moment := (date? cs).bind (expect? 'T') |>.bind time?
  (moment.bind offset?) == some [] || moment == some [] || date? cs == some [] ||
    time? cs == some []

/-- A date or a time with capital letters between its parts. -/
def normalDatetime (text : String) : List Char :=
  text.toList.map fun c => if c == 'z' then 'Z' else if c == 't' || c == ' ' then 'T' else c

/-- Whether a date or a time is valid. -/
def datetimeMeaning (text : String) : Meaning Unit :=
  let cs := normalDatetime text
  if isDatetime cs then .ok () else .error (.badDatetime (String.ofList cs))

end Netlist.Toml
