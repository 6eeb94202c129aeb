import Netlist.Yaml.Input
import Netlist.Yaml.Token
import Std.Data.TreeMap

/-!
# Walking over a YAML text

The scanner stands at a place of the text and keeps what the next token depends
on: the open blocks and flow collections, the tokens that are found but not yet
handed out, and the keys that may turn out to be keys once a colon follows.

Loops carry a fuel argument: each turn passes a character, so the number of
characters left is enough.
-/

namespace Netlist.Yaml

/-- A token that becomes a key when a colon follows it. -/
structure PossibleKey where
  /-- Whether it still can. -/
  possible : Bool := false
  /-- Whether it must, because a block mapping goes on here. -/
  required : Bool := false
  token : Nat := 0
  /-- Where the token starts. -/
  mark : Mark := {}

/-- The state of the scanner. -/
structure Scanner where
  mark : Mark := {}
  /-- The number of line breaks since the last character that is not blank. -/
  newlines : Nat := 0
  /-- Whether the token for the start has been found. -/
  started : Bool := false
  /-- The number of open flow collections. -/
  flow : Nat := 0
  /-- The column of the innermost block, -1 outside all blocks. -/
  indent : Int := -1
  /-- The columns of the blocks around it. -/
  indents : List Int := []
  /-- The possible keys by level: one for the blocks and one per open flow
  collection. -/
  keys : Array PossibleKey := #[]
  /-- The level of the possible key that starts with a token. -/
  keyLevels : Std.TreeMap Nat Nat := ∅
  /-- Whether a key may start here. -/
  keyAllowed : Bool := false
  /-- The number of tokens handed out. -/
  parsed : Nat := 0
  /-- The tokens found and not handed out. -/
  queue : List Token := []
  /-- The comments found and not handed out. -/
  comments : List Comment := []
  /-- The number of characters in reach, counted from the start of the text.  The end of
  the text counts as characters that can be reached. -/
  reached : Nat := 0
  /-- The place of the scanner when the reach was last extended. -/
  base : Nat := 0
  /-- Whether the first token in the queue can be handed out. -/
  ready : Bool := false
  /-- The last error.  It stays when the scanner goes on after it. -/
  fault : Option Error := none

/-- A step of the scanner over a text.  After a failure the scanner stands where the step
stopped. -/
abbrev Scan := ReaderT Input (ExceptT Error (StateM Scanner))

/-! ## Characters -/

/-- The character read past the end. -/
def endChar : Char := Char.ofNat 0

/-- Whether a character is a space or a tab. -/
def isBlank (c : Char) : Bool := c == ' ' || c == '\t'

/-- Whether a character ends a line. -/
def isBreak (c : Char) : Bool :=
  c == '\r' || c == '\n' || c.toNat == 0x85 || c.toNat == 0x2028 || c.toNat == 0x2029

/-- Whether a character ends a line or the text. -/
def isBreakOrEnd (c : Char) : Bool := isBreak c || c == endChar

/-- Whether a character is blank or ends a line or the text. -/
def isBlankOrEnd (c : Char) : Bool := isBlank c || isBreakOrEnd c

/-- Whether a character may stand in a name. -/
def isWordChar (c : Char) : Bool := c.isAlphanum || c == '_' || c == '-'

/-! ## The place -/

def here : Scan Mark := return (← get).mark

/-- Keeps an error in mind. -/
def note (e : Error) : Scan Unit := modify fun s => { s with fault := some e }

def failWith {α : Type} (e : Error) : Scan α := do
  note e
  throw e

/-- Fails with a problem of a construct that starts at a mark. -/
def failFrom {α : Type} (context : Mark) (p : Problem) : Scan α := do
  failWith (Error.inToken p context (← here))

/-- The error for a problem in the bytes, after the errors so far. -/
def errorInBytes (p : Problem) : Scan Error := do
  return ⟨p, (← get).fault.bind Error.lineBefore⟩

/-- Brings some characters into reach, block by block.  Gives what is wrong with their
bytes; the characters before the fault come into reach all the same. -/
def extend (count : Nat) : Scan (Option Problem) := do
  let input ← read
  let s ← get
  let wanted := s.mark.index + count
  if wanted ≤ s.reached then return none
  match input.ends.find? (wanted ≤ ·), input.fault with
  | some stop, _ =>
    set { s with reached := stop, base := s.mark.index }
    return none
  | none, none =>
    set { s with reached := max s.reached input.chars.size + 1, base := s.mark.index }
    return none
  | none, some p =>
    set { s with reached := input.chars.size, base := s.mark.index }
    return some p

/-- Asks for some characters to be there; fails at a fault in their bytes. -/
def need (count : Nat) : Scan Unit := do
  match ← extend count with
  | none => pure ()
  | some p => failWith (← errorInBytes p)

/-- Whether some characters are there; a fault in their bytes is only kept in mind. -/
def reach (count : Nat) : Scan Bool := do
  match ← extend count with
  | none => return true
  | some p =>
    note (← errorInBytes p)
    return false

/-- The character some places ahead. -/
def ahead (count : Nat) : Scan Char := do
  return ((← read).chars[(← here).index + count]?).getD endChar

/-- The character here. -/
def current : Scan Char := do
  need 1
  ahead 0

/-- Passes a character. -/
def advance : Scan Unit := do
  let c ← ahead 0
  modify fun s => { s with
    mark := { s.mark with index := s.mark.index + 1, column := s.mark.column + 1 }
    newlines := if isBlank c then s.newlines else 0 }

/-- Passes a line break, if there is one.  A carriage return with a line feed is one
break. -/
def advanceLine : Scan Unit := do
  let c ← ahead 0
  let d ← ahead 1
  if isBreak c then
    let width := if c == '\r' && d == '\n' then 2 else 1
    modify fun s => { s with
      mark := ⟨s.mark.index + width, s.mark.line + 1, 0⟩
      newlines := s.newlines + 1 }

/-- Passes a line break and gives the text it stands for. -/
def takeLine : Scan (List Char) := do
  let c ← ahead 0
  advanceLine
  if c.toNat == 0x2028 || c.toNat == 0x2029 then return [c]
  else if isBreak c then return ['\n']
  else return []

/-- The number of characters left, as fuel. -/
def charsLeft : Scan Nat := do return (← read).chars.size + 1 - (← here).index

/-- Passes characters while they satisfy a condition, at most `fuel`. -/
def advanceWhileFor (p : Char → Bool) : (fuel : Nat) → Scan Unit
  | 0 => pure ()
  | fuel + 1 => do
    if p (← current) then
      advance
      advanceWhileFor p fuel

/-- Passes characters while they satisfy a condition. -/
def advanceWhile (p : Char → Bool) : Scan Unit := do advanceWhileFor p (← charsLeft)

/-- Passes characters while they satisfy a condition, at most `fuel`, and gives
them. -/
def takeWhileFor (p : Char → Bool) : (fuel : Nat) → Scan (List Char)
  | 0 => pure []
  | fuel + 1 => do
    let c ← current
    if p c then
      advance
      return c :: (← takeWhileFor p fuel)
    else return []

/-- Passes characters while they satisfy a condition and gives them. -/
def takeWhile (p : Char → Bool) : Scan (List Char) := do takeWhileFor p (← charsLeft)

/-- Passes some characters. -/
def advanceBy : (count : Nat) → Scan Unit
  | 0 => pure ()
  | count + 1 => do
    advance
    advanceBy count

/-- Whether a document marker stands at the start of a line. -/
def atDocumentMarker : Scan Bool := do
  let a ← ahead 0
  let b ← ahead 1
  let c ← ahead 2
  let d ← ahead 3
  return (← here).column == 0 && (a == '-' || a == '.') && a == b && b == c && isBlankOrEnd d

/-! ## Tokens -/

def push (t : Token) : Scan Unit := modify fun s => { s with queue := s.queue ++ [t] }

/-- Puts a token in front of the one with a number; at the end when that one has
been handed out. -/
def pushBefore (number : Nat) (t : Token) : Scan Unit :=
  modify fun s =>
    if number < s.parsed then { s with queue := s.queue ++ [t] }
    else
      let k := number - s.parsed
      { s with queue := s.queue.take k ++ t :: s.queue.drop k }

/-- Passes some characters and makes a token of them. -/
def pushIndicator (kind : TokenKind) (count : Nat) : Scan Unit := do
  let start ← here
  advanceBy count
  push ⟨kind, start, ← here⟩

end Netlist.Yaml
