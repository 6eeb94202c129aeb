import Netlist.Pattern.Expand

/-!
# Folding atoms back into patterns

Neighbouring atoms that differ only in their last part are written as one
group: numbers that go up or down by one as a range, anything else as an
enumeration.  Other atoms are written as they are.  Separators stand between.
-/

namespace Netlist.Pattern

/-- The text of an atom before its last part, and that part, if the atom ends in
it. -/
def splitLast? (a : Atom) : Option (List Char × Part) := do
  let last ← a.parts.getLast?
  let text := last.text.toList
  let literal := a.literal.toList
  if text.isSuffixOf literal then some (literal.take (literal.length - text.length), last) else none

/-- The last parts of the atoms at the front that continue a run. -/
def takeRun (stem : List Char) (first : Part) : List Atom → List Part × List Atom
  | [] => ([], [])
  | a :: rest =>
    match splitLast? a with
    | none => ([], a :: rest)
    | some (s, p) =>
      if s == stem && p.sameKind first then
        let (parts, left) := takeRun stem first rest
        (p :: parts, left)
      else ([], a :: rest)

theorem takeRun_length (stem : List Char) (first : Part) (atoms : List Atom) :
    (takeRun stem first atoms).2.length ≤ atoms.length := by
  induction atoms with
  | nil => simp [takeRun]
  | cons a rest ih =>
    unfold takeRun
    split
    · simp
    · split
      · simp only [List.length_cons]
        omega
      · simp

/-- Whether each number follows the one before by the same step, modulo 2⁶⁴. -/
def stepsBy (step : Int) : List Part → Bool
  | p :: q :: rest => Decimal.wrap64 (q.value - p.value) == step && stepsBy step (q :: rest)
  | _ => true

/-- Whether the parts are numbers that go up or down by one. -/
def isContiguous : List Part → Bool
  | p :: q :: rest =>
    let step := Decimal.wrap64 (q.value - p.value)
    p.isNumber && (step == 1 || step == -1) && stepsBy step (p :: q :: rest)
  | _ => false

def renderGroup (parts : List Part) : String :=
  match isContiguous parts, parts.head?, parts.getLast? with
  | true, some first, some last =>
    "[" ++ Decimal.ofInt first.value ++ ":" ++ Decimal.ofInt last.value ++ "]"
  | _, _, _ => "<" ++ ",".intercalate (parts.map (·.text)) ++ ">"

/-- The pieces that atoms are folded into. -/
def renderRuns (atoms : List Atom) : List String :=
  match atoms with
  | [] => []
  | a :: rest =>
    match splitLast? a with
    | none => a.literal :: renderRuns rest
    | some (stem, first) =>
      match _h : takeRun stem first rest with
      | ([], _) => a.literal :: renderRuns rest
      | (p :: parts, left) =>
        (String.ofList stem ++ renderGroup (first :: p :: parts)) :: renderRuns left
termination_by atoms.length
decreasing_by
  all_goals simp_wf
  have := takeRun_length stem first rest
  rw [_h] at this
  simp at this
  omega

/-- Atoms in pattern notation. -/
def render (atoms : List Atom) : String := ";".intercalate (renderRuns atoms)

end Netlist.Pattern
