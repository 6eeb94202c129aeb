import Netlist.Toml.Error

/-!
# Reading the characters of a TOML document

A cursor is what is left of a document, the number of its line and the fuel of loops.  Control
characters, bytes that spell no character and carriage returns without a line feed
are faults wherever they stand.
-/

namespace Netlist.Toml

/-- A place in a document. -/
structure Cursor where
  rest : Bytes
  /-- The number of the line, from one. -/
  line : Nat := 1
  /-- How many steps suffice to read the document. -/
  steps : Nat

/-- A reading step: a result and the place after it, or a fault. -/
abbrev Scan := StateT Cursor (Except Fault)

namespace Scan

def fail {α : Type} (p : Problem) : Scan α := fun c => .error { line := c.line, problem := p }

def failBefore {α : Type} (p : Problem) : Scan α := fun c =>
  .error { line := (c.line : Int) - 1, problem := p }

/-- Fails because of a sight that was read: at the end of the document the line before
counts. -/
def failAt {α : Type} (s : Sight) (p : Problem) : Scan α :=
  if s.isNone then failBefore p else fail p

/-- Whether a character may not stand in a document. -/
def isControl (c : Char) : Bool :=
  c != '\t' && c != '\r' && c != '\n' && (c.toNat ≤ 0x1F || c.toNat == 0x7F)

/-- The next character with the number of its bytes, if the document goes on. -/
def look : Scan (Option (Char × Nat)) := fun c =>
  match c.rest with
  | [] => .ok (none, c)
  | b :: rest =>
    match Bytes.headChar? (b :: rest) with
    | none => .error { line := c.line, problem := .invalidByte b }
    | some (char, width) =>
      if char == Bytes.replacement then .error { line := c.line, problem := .invalidByte b }
      else if isControl char || (char == '\r' && rest.head? != some 10) then
        .error { line := c.line, problem := .controlCharacter char }
      else .ok (some (char, width), c)

/-- The next character, which stays. -/
def peek : Scan Sight := return (← look).map (·.1)

/-- Takes the next character. -/
def next : Scan Sight := do
  match ← look with
  | none => return none
  | some (char, width) =>
    modify fun c =>
      { c with rest := c.rest.drop width, line := if char == '\n' then c.line + 1 else c.line }
    return some char

/-- How many steps suffice to read what is left. -/
def budget : Scan Nat := return (← get).steps

/-- Takes characters as long as they are in a class. -/
def takeWhileFrom (p : Char → Bool) : (fuel : Nat) → (taken : List Char) → Scan (List Char)
  | 0, taken => return taken.reverse
  | fuel + 1, taken => do
    match ← peek with
    | some c =>
      if p c then
        discard next
        takeWhileFrom p fuel (c :: taken)
      else return taken.reverse
    | none => return taken.reverse

/-- Takes characters as long as they are in a class. -/
def takeWhile (p : Char → Bool) : Scan (List Char) := do takeWhileFrom p (← budget) []

/-- Whether a character is a blank inside a line. -/
def isBlank (c : Char) : Bool := c == ' ' || c == '\t'

/-- Whether a character belongs to a line break. -/
def isBreak (c : Char) : Bool := c == '\n' || c == '\r'

def skipBlanks : Scan Unit := discard (takeWhile isBlank)

def skipComment : Scan Unit := discard (takeWhile fun c => !isBreak c)

/-- Skips blanks, line breaks and comments. -/
def skipGaps : (fuel : Nat) → Scan Unit
  | 0 => return
  | fuel + 1 => do
    discard (takeWhile fun c => isBlank c || isBreak c)
    if (← peek) == some '#' then
      skipComment
      skipGaps fuel
    else return

/-- Takes the next character if it is the given one. -/
def accept (c : Char) : Scan Bool := do
  if (← peek) == some c then
    discard next
    return true
  else return false

end Scan

end Netlist.Toml
