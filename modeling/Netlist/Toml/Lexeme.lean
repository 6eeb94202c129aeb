import Netlist.Text.Letter
import Netlist.Toml.Cursor

/-!
# Lexemes of TOML values

A value starts with a lexeme: a string as it is written, a number or a date as it
is written, a word, or the opening bracket of an array or an inline table.  What a
string or a number means is decided when the lexeme is taken up.
-/

namespace Netlist.Toml

/-- The start of a value. -/
inductive Lexeme where
  | string (raw : String)
  /-- A string with escapes over several lines. -/
  | longString (raw : String)
  /-- A string without escapes. -/
  | literal (text : String)
  /-- A string without escapes over several lines. -/
  | longLiteral (text : String)
  | integer (text : String)
  /-- A number with a point or an exponent. -/
  | float (text : String)
  /-- A date or a time. -/
  | datetime (text : String)
  | boolean (value : Bool)
  | openArray
  /-- The start of an inline table. -/
  | openTable
  deriving DecidableEq, Repr

namespace Lexeme

def isDigitOf (base : Nat) (c : Char) : Bool :=
  match Bytes.hexValue? c with
  | some n => n < base
  | none => false

/-- A text from its last characters. -/
def textOf (taken : List Char) : String := String.ofList taken.reverse

/-! ## Strings -/

/-- Takes the hexadecimal digits of an escape.  `taken` holds the string so far, last
character first. -/
def hexDigits (digits letter : String) : (count : Nat) → (taken : List Char) → Scan (List Char)
  | 0, taken => return taken
  | count + 1, taken => do
    let c ← Scan.next
    let taken := c.toList ++ taken
    if (c.map (isDigitOf 16)).getD false then hexDigits digits letter count taken
    else Scan.failAt c (.shortEscape digits letter (textOf taken))

/-- Takes what follows a backslash in a string. -/
def escape (taken : List Char) : Scan (List Char) := do
  let c ← Scan.next
  match c with
  | some 'u' => hexDigits "four" "u" 4 ('u' :: taken)
  | some 'U' => hexDigits "eight" "U" 8 ('U' :: taken)
  | some c =>
    if "btnfr\" \t\\".toList.contains c then return c :: taken
    else Scan.fail (.badEscape (some c))
  | none => Scan.failBefore (.badEscape none)

/-- Takes a string with escapes up to its closing quote. -/
def readShort : (fuel : Nat) → (taken : List Char) → Scan String
  | 0, taken => return textOf taken
  | fuel + 1, taken => do
    match ← Scan.next with
    | none => Scan.failBefore (.unclosedString "'\"'")
    | some '\\' => readShort fuel (← escape ('\\' :: taken))
    | some '"' => return textOf taken
    | some c => if Scan.isBreak c then Scan.failBefore .stringBreak else readShort fuel (c :: taken)

/-- Takes a string without escapes up to its closing quote. -/
def readShortLiteral : (fuel : Nat) → (taken : List Char) → Scan String
  | 0, taken => return textOf taken
  | fuel + 1, taken => do
    match ← Scan.next with
    | none => Scan.failBefore (.unclosedString "\"'\"")
    | some '\'' => return textOf taken
    | some c =>
      if Scan.isBreak c then Scan.failBefore .stringBreak else readShortLiteral fuel (c :: taken)

/-- What a quote inside a long string is. -/
inductive QuoteRole where
  /-- A part of the string. -/
  | content
  /-- The first of the three closing quotes. -/
  | closing
  /-- One of too many. -/
  | surplus

/-- What a quote means that was just taken, from what follows it.  Three quotes close the
string unless a fourth one follows; then the first of them belongs to it, as long as no
more than two such quotes stand at the end. -/
def quoteRole (quote : Char) (escapable : Bool) (taken : List Char) : Scan QuoteRole := do
  let c ← get
  let following := c.rest.takeWhile (· == UInt8.ofNat quote.toNat)
  if following.length < 2 then return .content
  else if following.length == 2 then
    modify fun c => { c with rest := c.rest.drop 2 }
    discard Scan.peek
    modify fun _ => c
    return .closing
  else if taken.take 2 == [quote, quote] && !(escapable && taken[2]? == some '\\') then
    return .surplus
  else return .content

/-- Takes a string with escapes up to its three closing quotes. -/
def readLong : (fuel : Nat) → (taken : List Char) → Scan String
  | 0, taken => return textOf taken
  | fuel + 1, taken => do
    match ← Scan.next with
    | none => Scan.failBefore (.unclosedString "'\"\"\"'")
    | some '\\' =>
      match ← Scan.peek with
      | some c =>
        if Scan.isBreak c then
          discard Scan.next
          readLong fuel (c :: '\\' :: taken)
        else readLong fuel (← escape ('\\' :: taken))
      | none => readLong fuel (← escape ('\\' :: taken))
    | some '"' =>
      match ← quoteRole '"' true taken with
      | .content => readLong fuel ('"' :: taken)
      | .surplus => Scan.fail (.tooManyQuotes "'\"\"\"\"\"\"'")
      | .closing =>
        modify fun c => { c with rest := c.rest.drop 2 }
        return textOf taken
    | some c => readLong fuel (c :: taken)

/-- Takes a string without escapes up to its three closing quotes. -/
def readLongLiteral : (fuel : Nat) → (taken : List Char) → Scan String
  | 0, taken => return textOf taken
  | fuel + 1, taken => do
    match ← Scan.next with
    | none => Scan.failBefore (.unclosedString "\"'''\"")
    | some '\'' =>
      match ← quoteRole '\'' false taken with
      | .content => readLongLiteral fuel ('\'' :: taken)
      | .surplus => Scan.fail (.tooManyQuotes "\"''''''\"")
      | .closing =>
        modify fun c => { c with rest := c.rest.drop 2 }
        return textOf taken
    | some c => readLongLiteral fuel (c :: taken)

/-- Takes a string after its opening quote. -/
def afterQuote (quote : Char) : Scan Lexeme := do
  let fuel ← Scan.budget
  if ← Scan.accept quote then
    if ← Scan.accept quote then
      if quote == '"' then return .longString (← readLong fuel [])
      else return .longLiteral (← readLongLiteral fuel [])
    else if quote == '"' then return .string "" else return .literal ""
  else if quote == '"' then return .string (← readShort fuel [])
  else return .literal (← readShortLiteral fuel [])

/-! ## Numbers and dates -/

/-- Goes on with a number that has a point or an exponent. -/
def readFloat (taken : List Char) : Scan Lexeme := do
  let more ← Scan.takeWhile fun c => Decimal.isDigit c || "_.-+eE".toList.contains c
  return .float (textOf taken ++ String.ofList more)

/-- Goes on with a decimal number. -/
def decimal (taken : List Char) : Scan Lexeme := do
  let taken := (← Scan.takeWhile fun c => Decimal.isDigit c || c == '_').reverse ++ taken
  match ← Scan.peek with
  | some c =>
    if ".eE".toList.contains c then
      discard Scan.next
      readFloat (c :: taken)
    else return .integer (textOf taken)
  | none => return .integer (textOf taken)

/-- Goes on with a number or a date, after digits. -/
def decimalOrDate (taken : List Char) : Scan Lexeme := do
  let taken := (← Scan.takeWhile Decimal.isDigit).reverse ++ taken
  match ← Scan.peek with
  | some c =>
    if c == '-' || c == ':' then
      let more ← Scan.takeWhile fun c => Decimal.isDigit c || "-:Tt .Zz+".toList.contains c
      let chars := taken.reverse ++ more
      return .datetime (String.ofList (chars.reverse.dropWhile (· == ' ')).reverse)
    else decimal taken
  | none => return .integer (textOf taken)

/-- Goes on with a number in a base, after its letter. -/
def inBase (base : Nat) (name : String) (letter : Char) : Scan Lexeme := do
  let c ← Scan.peek
  if (c.map (isDigitOf base)).getD false then
    let digits ← Scan.takeWhile fun c => isDigitOf base c || c == '_'
    return .integer (String.ofList ('0' :: letter :: digits))
  else Scan.fail (.notInBase name (String.ofList ['0', letter, c.char]))

def afterZero : Scan Lexeme := do
  match ← Scan.peek with
  | some 'b' =>
    discard Scan.next
    inBase 2 "a binary" 'b'
  | some 'o' =>
    discard Scan.next
    inBase 8 "an octal" 'o'
  | some 'x' =>
    discard Scan.next
    inBase 16 "a hexidecimal" 'x'
  | some c => if Decimal.isDigit c then decimalOrDate ['0'] else decimal ['0']
  | none => return .integer "0"

/-- Takes the rest of a word that a signed number may be. -/
def signedWord (letters : List Char) : (taken : List Char) → Scan Lexeme
  | taken => do
    match letters with
    | [a, b] =>
      if ← Scan.accept a then
        if ← Scan.accept b then return .float (textOf (b :: a :: taken))
        else Scan.fail (.badInfinity (textOf (a :: taken)))
      else Scan.fail (.badInfinity (textOf taken))
    | _ => Scan.fail (.badInfinity (textOf taken))

def afterSign (sign : Char) : Scan Lexeme := do
  let c ← Scan.next
  match c with
  | some 'i' => signedWord ['n', 'f'] ['i', sign]
  | some 'n' => signedWord ['a', 'n'] ['n', sign]
  | some '.' => Scan.fail .leadingPoint
  | some c =>
    let following ← if c == '0' then Scan.peek else pure none
    match following with
    | some b =>
      if "box".toList.contains b then Scan.fail (.signedBase (String.ofList [sign, '0', b]))
      else decimal [c, sign]
    | none =>
      if Decimal.isDigit c then decimal [c, sign] else Scan.fail (.digitExpected (some c))
  | none => Scan.failBefore (.digitExpected none)

/-! ## Words -/

/-- Takes a word, which has to be a truth value. -/
def word : Scan Lexeme := do
  let letters ← Scan.takeWhile Text.isLetter
  match String.ofList letters with
  | "true" => return .boolean true
  | "false" => return .boolean false
  | text => Scan.fail (.wordExpected text)

/-- Goes on after an `i` or an `n`, which may start a float. -/
def specialFloat (first : Char) : Scan Lexeme := do
  if ← Scan.accept 'n' then
    if ← Scan.accept 'f' then return .float (String.ofList [first, 'n', 'f'])
    else if ← Scan.accept 'a' then
      if ← Scan.accept 'n' then return .float (String.ofList [first, 'n', 'a', 'n'])
      else
        modify fun c => { c with rest := 97 :: c.rest }
        word
    else
      modify fun c => { c with rest := 110 :: c.rest }
      word
  else if ← Scan.accept 'a' then
    if ← Scan.accept 'n' then return .float (String.ofList [first, 'a', 'n'])
    else
      modify fun c => { c with rest := 97 :: c.rest }
      word
  else
    modify fun c => { c with rest := UInt8.ofNat first.toNat :: c.rest }
    word

/-- Takes the start of a value. -/
def read : Scan Lexeme := do
  Scan.skipBlanks
  let before ← get
  let c ← Scan.next
  match c with
  | none => Scan.failBefore .valueMissing
  | some '[' => return .openArray
  | some '\x7b' => return .openTable
  | some '"' => afterQuote '"'
  | some '\'' => afterQuote '\''
  | some '.' => Scan.fail .leadingPoint
  | some '-' => afterSign '-'
  | some '+' => afterSign '+'
  | some '0' => afterZero
  | some 'i' => specialFloat 'i'
  | some 'n' => specialFloat 'n'
  | some c =>
    if Decimal.isDigit c then decimalOrDate [c]
    else if Text.isLetter c then
      set before
      word
    else Scan.fail (.valueExpected (some c))

end Lexeme

end Netlist.Toml
