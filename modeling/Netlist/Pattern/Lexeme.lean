import Netlist.Pattern.Expression

/-!
# Lexemes of a pattern expression

The text of an expression is cut at its five special characters.  A lexeme is a
run of text, a closed group, a separator, or something that cannot stand where
it is.  A group that is not closed properly ends the scan: nothing is read
after it.  Offsets count bytes.
-/

namespace Netlist.Pattern

/-- The brackets of a group. -/
inductive Delimiter where
  | angle
  | square
  deriving DecidableEq, Repr

def Delimiter.opening : Delimiter → Char
  | .angle => '<'
  | .square => '['

def Delimiter.closing : Delimiter → Char
  | .angle => '>'
  | .square => ']'

/-- Whether a character has a meaning in an expression. -/
def isSpecial (c : Char) : Bool := c == ';' || c == '<' || c == '>' || c == '[' || c == ']'

/-- A lexeme, with the offset where it starts. -/
inductive Lexeme where
  | text (start : Nat) (chars : List Char)
  /-- A closed group with what stands between its brackets. -/
  | group (start : Nat) (delimiter : Delimiter) (content : List Char)
  | separator (start : Nat)
  /-- A closing bracket without an opening one. -/
  | stray (start : Nat) (close : Char)
  /-- A group inside a group; `stop` is past the inner opening bracket. -/
  | nested (start stop : Nat)
  /-- A group without its closing bracket. -/
  | unclosed (start stop : Nat) (delimiter : Delimiter)
  deriving DecidableEq, Repr

/-- Where the scan is: in text or in a group, with the characters read so far,
last one first. -/
inductive Lexeme.Mode where
  /-- In text that started at an offset. -/
  | outside (start : Nat) (read : List Char)
  /-- In a group that started at an offset. -/
  | inside (start : Nat) (delimiter : Delimiter) (read : List Char)

def Lexeme.ofText (start : Nat) (read : List Char) : List Lexeme :=
  if read.isEmpty then [] else [.text start read.reverse]

/-- The lexemes of the characters from an offset on. -/
def Lexeme.scan : Lexeme.Mode → (pos : Nat) → List Char → List Lexeme
  | .outside start read, _, [] => Lexeme.ofText start read
  | .inside start d _, pos, [] => [.unclosed start pos d]
  | .outside start read, pos, c :: cs =>
    if c == ';' then
      Lexeme.ofText start read ++ .separator pos :: Lexeme.scan (.outside (pos + 1) []) (pos + 1) cs
    else if c == '<' then
      Lexeme.ofText start read ++ Lexeme.scan (.inside pos .angle []) (pos + 1) cs
    else if c == '[' then
      Lexeme.ofText start read ++ Lexeme.scan (.inside pos .square []) (pos + 1) cs
    else if c == '>' || c == ']' then
      Lexeme.ofText start read ++ .stray pos c :: Lexeme.scan (.outside (pos + 1) []) (pos + 1) cs
    else Lexeme.scan (.outside start (c :: read)) (pos + c.utf8Size) cs
  | .inside start d read, pos, c :: cs =>
    if c == d.closing then
      .group start d read.reverse :: Lexeme.scan (.outside (pos + 1) []) (pos + 1) cs
    else if c == '<' || c == '[' then [.nested start (pos + 1)]
    else if c == ';' || c == '>' || c == ']' then [.unclosed start pos d]
    else Lexeme.scan (.inside start d (c :: read)) (pos + c.utf8Size) cs

def lexemes (raw : String) : List Lexeme := Lexeme.scan (.outside 0 []) 0 raw.toList

end Netlist.Pattern
