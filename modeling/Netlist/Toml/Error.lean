import Netlist.Text.Decimal
import Netlist.Text.Quoted

/-!
# What can be wrong with a TOML document

A fault is a problem with the line it is noticed on and the key that was being
read.  At the end of the document, and at a line break that must not be there, the
line before counts.
-/

namespace Netlist.Toml

/-- A character or the end of the document. -/
abbrev Sight := Option Char

/-- The character that messages show for the end of the document. -/
def Sight.char (c : Sight) : Char := c.getD (Char.ofNat 0)

def Sight.quoted (c : Sight) : String := Text.quotedDelimiter c.char

def Sight.described : Sight → String
  | none => "end of file"
  | some c => "'" ++ String.singleton c ++ "'"

/-- What is wrong. -/
inductive Problem where
  | controlCharacter (c : Char)
  | invalidByte (b : UInt8)
  | zeroBytes
  | afterItem (c : Sight)
  | arrayNameEnd (c : Sight)
  | emptyTableName
  | leadingTableDot
  | tableNameEnd (c : Sight)
  | valueMissing
  | valueExpected (c : Sight)
  | wordExpected (word : String)
  | blankKey
  | leadingKeyDot
  | keyMissing
  | doubleDot
  | separatorMissing
  | separatorExpected (c : Sight)
  | leadingPoint
  | badInfinity (text : String)
  | signedBase (text : String)
  | digitExpected (c : Sight)
  | notInBase (base text : String)
  | unexpectedComma
  | arraySeparator (c : Sight)
  | tableBreak
  | trailingComma
  | tableSeparator (c : Sight)
  | stringBreak
  | unclosedString (delimiter : String)
  | tooManyQuotes (text : String)
  | badEscape (c : Sight)
  | shortEscape (digits letter text : String)
  | blankEscape (c : Char)
  | badScalarValue (text : String)
  | badUnderscores (kind text : String)
  | leadingZeros (kind text : String)
  | pointWithoutDigits (text : String)
  | badFloat (text : String)
  | outOfRange (text type : String)
  | badDatetime (text : String)
  | alreadyDefined (key : String)
  | notATable (key : String)
  | notAnArray (key : String)

def Problem.message : Problem → String
  | controlCharacter c =>
    "TOML files cannot contain control characters: '0x" ++
      String.ofList (Text.hexPadded 2 c.toNat) ++ "'"
  | invalidByte b => "invalid UTF-8 byte: 0x" ++ String.ofList (Text.hexPadded 2 b.toNat)
  | zeroBytes => "files cannot contain NULL bytes; probably using UTF-16; TOML files must be UTF-8"
  | afterItem c =>
    "expected a top-level item to end with a newline, comment, or EOF, but got " ++ c.quoted ++
      " instead"
  | arrayNameEnd c => "expected end of table array name delimiter ']', but got " ++ c.quoted ++
      " instead"
  | emptyTableName => "unexpected end of table name (table names cannot be empty)"
  | leadingTableDot => "unexpected table separator (table names cannot be empty)"
  | tableNameEnd c => "expected '.' or ']' to end table name, but got " ++ c.quoted ++ " instead"
  | valueMissing => "unexpected EOF; expected value"
  | valueExpected c => "expected value but found " ++ c.quoted ++ " instead"
  | wordExpected word => "expected value but found " ++ Text.quoted word ++ " instead"
  | blankKey => "unexpected '=': key name appears blank"
  | leadingKeyDot => "unexpected '.': keys cannot start with a '.'"
  | keyMissing => "unexpected '='"
  | doubleDot => "unexpected '.'"
  | separatorMissing => "unexpected EOF; expected key separator '='"
  | separatorExpected c => "expected '.' or '=', but got " ++ c.quoted ++ " instead"
  | leadingPoint => "floats must start with a digit, not '.'"
  | badInfinity text => "invalid float: '" ++ text ++ "'"
  | signedBase text => "cannot use sign with non-decimal numbers: '" ++ text ++ "'"
  | digitExpected c => "expected a digit but got " ++ c.quoted
  | notInBase base text => "not " ++ base ++ " number: '" ++ text ++ "'"
  | unexpectedComma => "unexpected comma"
  | arraySeparator c => "expected a comma (',') or array terminator (']'), but got " ++ c.described
  | tableBreak => "newlines not allowed within inline tables"
  | trailingComma => "trailing comma not allowed in inline tables"
  | tableSeparator c =>
    "expected a comma or an inline table terminator '\x7d', but got " ++ c.described ++ " instead"
  | stringBreak => "strings cannot contain newlines"
  | unclosedString delimiter => "unexpected EOF; expected " ++ delimiter
  | tooManyQuotes text => "unexpected " ++ text
  | badEscape c => "invalid escape in string '\\" ++ String.singleton c.char ++ "'"
  | shortEscape digits letter text =>
    "expected " ++ digits ++ " hexadecimal digits after '\\" ++ letter ++ "', but got " ++
      Text.quoted text ++ " instead"
  | blankEscape c => "invalid escape: '\\" ++ String.singleton c ++ "'"
  | badScalarValue text => "Escaped character '\\u" ++ text ++ "' is not valid UTF-8."
  | badUnderscores kind text =>
    "Invalid " ++ kind ++ " " ++ Text.quoted text ++ ": underscores must be surrounded by digits"
  | leadingZeros kind text =>
    "Invalid " ++ kind ++ " " ++ Text.quoted text ++ ": cannot have leading zeroes"
  | pointWithoutDigits text =>
    "Invalid float " ++ Text.quoted text ++ ": '.' must be followed by one or more digits"
  | badFloat text => "Invalid float value: " ++ Text.quoted text
  | outOfRange text type => text ++ " is out of range for " ++ type
  | badDatetime text => "Invalid TOML Datetime: " ++ Text.quoted text ++ "."
  | alreadyDefined key => "Key '" ++ key ++ "' has already been defined."
  | notATable key => "Key '" ++ key ++ "' was already created as a hash."
  | notAnArray key => "Key '" ++ key ++ "' was already created and cannot be used as an array."

/-- A problem with its place. -/
structure Fault where
  /-- The line, counted from one. -/
  line : Int
  /-- The key that was being read. -/
  lastKey : String := ""
  problem : Problem

def Fault.message (f : Fault) : String :=
  "toml: line " ++ Decimal.ofInt f.line ++
    (if f.lastKey.isEmpty then "" else " (last key " ++ Text.quoted f.lastKey ++ ")") ++ ": " ++
    f.problem.message

end Netlist.Toml
