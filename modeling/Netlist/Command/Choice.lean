import Netlist.Command.Flag
import Netlist.Text.LowerCase

/-!
# Which command is meant

The first argument names the command.  Global flags may stand before it, so the words
are looked through with the global flags in mind: a flag that is not known to be a
switch takes the next word.  A name that is not known is answered with names that are
close to it.
-/

namespace Netlist.Command

def takesNext (flags : List Flag) (word : String) : Bool :=
  let cs := word.toList
  if cs.contains '=' then false
  else
    match cs with
    | '-' :: '-' :: body =>
      !flags.any fun f => f.kind == .switch && f.name == String.ofList body
    | ['-', c] => c.toNat < 0x80 && !flags.any fun f => f.kind == .switch && f.letter == some c
    | _ => false

def looksLikeFlag (word : String) : Bool := word.startsWith "-"

/-- The words that are neither flags nor values of flags.  A flag that takes the last
word hides it. -/
def operands (flags : List Flag) : List String → List String
  | [] => []
  | word :: rest =>
    if word == "--" then []
    else if takesNext flags word then
      match rest with
      | _ :: next :: rest => operands flags (next :: rest)
      | _ => []
    else if word.isEmpty || looksLikeFlag word then operands flags rest
    else word :: operands flags rest

/-- The words without the first operand that is a given word. -/
def dropOperand (flags : List Flag) (name : String) : List String → List String
  | [] => []
  | word :: rest =>
    if word == "--" then word :: rest
    else if takesNext flags word then
      match rest with
      | value :: rest => word :: value :: dropOperand flags name rest
      | [] => [word]
    else if !looksLikeFlag word && word == name then rest
    else word :: dropOperand flags name rest

/-! ## Names that are close -/

/-- A row of the table of edit distances from the row before it.  `diagonal` is the
distance to the left in the row before, `left` the one to the left in this row. -/
def distanceRow (b : UInt8) : (diagonal left : Nat) → Bytes → List Nat → List Nat
  | diagonal, left, t :: ts, above :: row =>
    let here := if b == t then diagonal else min (min above left) diagonal + 1
    here :: distanceRow b above here ts row
  | _, _, _, _ => []

/-- The rows of the table of edit distances, one after the other. -/
def distanceRows (target : Bytes) : (first : Nat) → (row : List Nat) → Bytes → Nat
  | first, row, [] => row.getLast?.getD first
  | first, row, b :: rest =>
    distanceRows target (first + 1) (distanceRow b first (first + 1) target row) rest

/-- How many bytes have to be inserted, removed or changed to get from one text to
another. -/
def editDistance (a b : String) : Nat :=
  let target := Bytes.ofString b
  distanceRows target 0 (List.range' 1 target.length) (Bytes.ofString a)

/-- Two names are close up to this distance. -/
def closeDistance : Nat := 2

/-- Whether a name is close to what was typed: few edits away, or longer. -/
def isClose (typed name : String) : Bool :=
  let typed := Text.lower typed
  editDistance typed name ≤ closeDistance || name.startsWith typed

example : editDistance "elab" "elaborate" = 5 := by decide +kernel
example : editDistance "daig" "diag" = 2 := by decide +kernel

end Netlist.Command
