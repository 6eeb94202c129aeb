import Netlist.Text.Printable

/-!
# Quoted text in messages

A message quotes a text between double quotes.  A double quote, a backslash and
every character that is not printable are written as escapes; everything else
stands as it is.  A single delimiter is quoted between single quotes, and a byte
that belongs to no character is written in hexadecimal.
-/

namespace Netlist.Text

/-- The lower-case hexadecimal digits of a number, padded with zeros. -/
def hexPadded (width n : Nat) : List Char :=
  let digits := Nat.toDigits 16 n
  List.replicate (width - digits.length) '0' ++ digits

/-- The letter that stands for a control character after a backslash. -/
def escapeLetter? (c : Char) : Option Char :=
  match c.toNat with
  | 0x07 => some 'a'
  | 0x08 => some 'b'
  | 0x0C => some 'f'
  | 0x0A => some 'n'
  | 0x0D => some 'r'
  | 0x09 => some 't'
  | 0x0B => some 'v'
  | _ => none

/-- How a character is written when it cannot stand for itself. -/
def escaped (c : Char) : List Char :=
  match escapeLetter? c with
  | some letter => ['\\', letter]
  | none =>
    if c.toNat < 0x20 || c.toNat == 0x7F then '\\' :: 'x' :: hexPadded 2 c.toNat
    else if c.toNat < 0x10000 then '\\' :: 'u' :: hexPadded 4 c.toNat
    else '\\' :: 'U' :: hexPadded 8 c.toNat

/-- How a character is written inside double quotes. -/
def quotedChar (c : Char) : List Char :=
  if c == '"' || c == '\\' then ['\\', c]
  else if isPrintable c then [c]
  else escaped c

/-- Whether a character is one of ASCII that stands for itself inside double quotes. -/
def isPlain (c : Char) : Bool := ' ' ≤ c && c ≤ '~' && c != '"' && c != '\\'

/-- A text between double quotes.  A text of plain characters is taken as a whole. -/
def quoted (s : String) : String :=
  if s.toList.all isPlain then "\"" ++ s ++ "\""
  else String.ofList ('"' :: (s.toList.flatMap quotedChar ++ ['"']))

/-- How bytes are written inside double quotes, with the characters they spell; a byte
that belongs to no character is written as its number. -/
def quotedByteChars : Bytes → List (Char × Nat) → List Char
  | bytes, (c, width) :: rest =>
    let text :=
      if c == Bytes.replacement && width == 1 then
        '\\' :: 'x' :: hexPadded 2 ((bytes.head?.map (·.toNat)).getD 0)
      else quotedChar c
    text ++ quotedByteChars (bytes.drop width) rest
  | _, [] => []

def quotedBytes (bytes : Bytes) : String :=
  String.ofList ('"' :: (quotedByteChars bytes bytes.chars ++ ['"']))

/-- How a character is written inside single quotes. -/
def quotedDelimiterChar (c : Char) : List Char :=
  if c == '\'' || c == '\\' then ['\\', c]
  else if isPrintable c then [c]
  else escaped c

/-- A character between single quotes. -/
def quotedDelimiter (c : Char) : String :=
  String.ofList ('\'' :: (quotedDelimiterChar c ++ ['\'']))

end Netlist.Text
