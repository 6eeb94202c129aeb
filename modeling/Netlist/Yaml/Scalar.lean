import Netlist.Yaml.Property

/-!
# Scalars

Plain and quoted scalars may run over several lines; a single line break between
them becomes a space, and of several the first is dropped.  Block scalars keep
their lines, or fold them the same way.
-/

namespace Netlist.Yaml

/-- What stands between two runs of text in a scalar. -/
structure Gap where
  /-- The blanks, when there is no line break. -/
  blanks : List Char := []
  /-- Whether a line break has been passed. -/
  broken : Bool := false
  /-- The first line break. -/
  first : List Char := []
  /-- The other line breaks. -/
  more : List Char := []

def Gap.text (g : Gap) : List Char :=
  if g.broken then
    if g.first == ['\n'] then (if g.more.isEmpty then [' '] else g.more)
    else g.first ++ g.more
  else g.blanks

/-- Passes blanks and line breaks.  `onBlank` is asked before each blank. -/
def scanGapFor (onBlank : Gap → Scan Unit) : (fuel : Nat) → Gap → Scan Gap
  | 0, g => pure g
  | fuel + 1, g => do
    let c ← current
    if isBlank c then
      onBlank g
      advance
      scanGapFor onBlank fuel (if g.broken then g else { g with blanks := g.blanks ++ [c] })
    else if isBreak c then
      need 2
      let text ← takeLine
      scanGapFor onBlank fuel
        (if g.broken then { g with more := g.more ++ text }
        else { g with blanks := [], broken := true, first := text })
    else return g

/-- Passes blanks and line breaks. -/
def scanGap (onBlank : Gap → Scan Unit) (g : Gap) : Scan Gap := do
  scanGapFor onBlank (← charsLeft) g

/-! ## Quoted scalars -/

/-- What an escape stands for: a character, or a number of so many digits. -/
def escape? (c : Char) : Option (Char ⊕ Nat) :=
  match c with
  | '0' => some (.inl (Char.ofNat 0))
  | 'a' => some (.inl (Char.ofNat 7))
  | 'b' => some (.inl (Char.ofNat 8))
  | 't' => some (.inl '\t')
  | '\t' => some (.inl '\t')
  | 'n' => some (.inl '\n')
  | 'v' => some (.inl (Char.ofNat 11))
  | 'f' => some (.inl (Char.ofNat 12))
  | 'r' => some (.inl '\r')
  | 'e' => some (.inl (Char.ofNat 27))
  | ' ' => some (.inl ' ')
  | '"' => some (.inl '"')
  | '\'' => some (.inl '\'')
  | '\\' => some (.inl '\\')
  | 'N' => some (.inl (Char.ofNat 0x85))
  | '_' => some (.inl (Char.ofNat 0xA0))
  | 'L' => some (.inl (Char.ofNat 0x2028))
  | 'P' => some (.inl (Char.ofNat 0x2029))
  | 'x' => some (.inr 2)
  | 'u' => some (.inr 4)
  | 'U' => some (.inr 8)
  | _ => none

/-- The number that hexadecimal digits ahead spell. -/
def scanHexadecimal (start : Mark) : (count place value : Nat) → Scan Nat
  | 0, _, value => pure value
  | count + 1, place, value => do
    match Bytes.hexValue? (← ahead place) with
    | none => failFrom start .hexadecimalNumber
    | some d => scanHexadecimal start count (place + 1) (value * 16 + d)

/-- An escape in a double-quoted scalar, at its backslash. -/
def scanEscape (start : Mark) : Scan Char := do
  match escape? (← ahead 1) with
  | none => failFrom start .unknownEscape
  | some (.inl c) =>
    advanceBy 2
    return c
  | some (.inr count) =>
    advanceBy 2
    need count
    let value ← scanHexadecimal start count 0 0
    if (0xD800 ≤ value && value ≤ 0xDFFF) || 0x10FFFF < value then failFrom start .escapeCode
    advanceBy count
    return Char.ofNat value

/-- A run of text in a quoted scalar up to a blank, a line break, the end or the
closing quote; with whether it ended at an escaped line break. -/
def scanQuotedRun (single : Bool) (start : Mark) : (fuel : Nat) → Scan (List Char × Bool)
  | 0 => pure ([], false)
  | fuel + 1 => do
    let c ← ahead 0
    let d ← ahead 1
    if isBlankOrEnd c then return ([], false)
    else if single && c == '\'' && d == '\'' then
      advanceBy 2
      need 2
      let (rest, escaped) ← scanQuotedRun single start fuel
      return ('\'' :: rest, escaped)
    else if c == (if single then '\'' else '"') then return ([], false)
    else if !single && c == '\\' && isBreak d then
      need 3
      advance
      advanceLine
      return ([], true)
    else if !single && c == '\\' then
      let e ← scanEscape start
      need 2
      let (rest, escaped) ← scanQuotedRun single start fuel
      return (e :: rest, escaped)
    else
      advance
      need 2
      let (rest, escaped) ← scanQuotedRun single start fuel
      return (c :: rest, escaped)

/-- The text of a quoted scalar up to its closing quote. -/
def scanQuotedText (single : Bool) (start : Mark) : (fuel : Nat) → Scan (List Char)
  | 0 => pure []
  | fuel + 1 => do
    need 4
    if ← atDocumentMarker then failFrom start .documentMarker
    if (← ahead 0) == endChar then failFrom start .unexpectedEnd
    let (run, escaped) ← scanQuotedRun single start (← charsLeft)
    if (← current) == (if single then '\'' else '"') then return run
    let gap ← scanGap (fun _ => pure ()) { broken := escaped }
    let rest ← scanQuotedText single start fuel
    return run ++ gap.text ++ rest

/-- A quoted scalar, at its opening quote. -/
def scanQuoted (single : Bool) : Scan Token := do
  let start ← here
  advance
  let text ← scanQuotedText single start (← charsLeft)
  advance
  let style := if single then Style.singleQuoted else Style.doubleQuoted
  return ⟨.scalar (String.ofList text) style, start, ← here⟩

/-! ## Plain scalars -/

/-- Whether a character ends a plain scalar, given the one after it. -/
def endsPlain (inFlow : Bool) (c d : Char) : Bool :=
  (c == ':' && isBlankOrEnd d) || (inFlow && [',', '?', '[', ']', '\x7b', '\x7d'].contains c)

def scanPlainRun (inFlow : Bool) : (fuel : Nat) → Scan (List Char)
  | 0 => pure []
  | fuel + 1 => do
    let c ← ahead 0
    if isBlankOrEnd c || endsPlain inFlow c (← ahead 1) then return []
    advance
    need 2
    return c :: (← scanPlainRun inFlow fuel)

/-- The text of a plain scalar after a gap, where the text ends, and whether a line
break was passed after that. -/
def scanPlainText (inFlow : Bool) (start : Mark) (indent : Int) :
    (fuel : Nat) → (stop : Mark) → Gap → Scan (List Char × Mark × Bool)
  | 0, stop, gap => pure ([], stop, gap.broken)
  | fuel + 1, stop, gap => do
    need 4
    if (← atDocumentMarker) || (← ahead 0) == '#' then return ([], stop, gap.broken)
    let run ← scanPlainRun inFlow (← charsLeft)
    let text := if run.isEmpty then [] else gap.text ++ run
    let stop ← if run.isEmpty then pure stop else here
    let gap := if run.isEmpty then gap else {}
    let c ← ahead 0
    if !(isBlank c || isBreak c) then return (text, stop, gap.broken)
    let onBlank (g : Gap) : Scan Unit := do
      if g.broken && ((← here).column : Int) < indent && (← ahead 0) == '\t' then
        failFrom start .tabInPlain
    let gap ← scanGap onBlank gap
    if !inFlow && ((← here).column : Int) < indent then return (text, stop, gap.broken)
    let (rest, stop, broken) ← scanPlainText inFlow start indent fuel stop gap
    return (text ++ rest, stop, broken)

/-- A plain scalar, at its first character.  A key may follow when it ended at a line
break. -/
def scanPlain : Scan Token := do
  let start ← here
  let s ← get
  let (text, stop, broken) ←
    scanPlainText (s.flow != 0) start (s.indent + 1) (← charsLeft) start {}
  if broken then modify fun s => { s with keyAllowed := true }
  return ⟨.scalar (String.ofList text) .plain, start, stop⟩

/-! ## Block scalars -/

/-- What is done with the line breaks at the end of a block scalar. -/
inductive Chomping where
  | strip
  | clip
  | keep

/-- A chomping indicator, if there is one. -/
def scanChomping : Scan (Option Chomping) := do
  match ← current with
  | '+' =>
    advance
    return some .keep
  | '-' =>
    advance
    return some .strip
  | _ => return none

/-- An indentation indicator, zero if there is none. -/
def scanIncrement (start : Mark) : Scan Nat := do
  let c ← current
  if c == '0' then failFrom start .zeroIndentation
  if c.isDigit then
    advance
    return c.toNat - '0'.toNat
  else return 0

/-- The indicators of a block scalar, in either order. -/
def scanBlockHeader (start : Mark) : Scan (Chomping × Nat) := do
  match ← scanChomping with
  | some chomping => return (chomping, ← scanIncrement start)
  | none =>
    let increment ← scanIncrement start
    let chomping ← if increment == 0 then pure none else scanChomping
    return (chomping.getD .clip, increment)

/-- Passes indentation and empty lines; gives the line breaks and the deepest
indentation.  `indent` is zero while the indentation is not known. -/
def scanEmptyLines (start : Mark) (indent : Nat) :
    (fuel deepest : Nat) → Scan (List Char × Nat)
  | 0, deepest => pure ([], deepest)
  | fuel + 1, deepest => do
    let column := (← here).column
    if indent == 0 then advanceWhile (· == ' ') else advanceWhileFor (· == ' ') (indent - column)
    let column := (← here).column
    let deepest := max deepest column
    let c ← current
    if (indent == 0 || column < indent) && c == '\t' then failFrom start .tabInBlock
    if !isBreak c then return ([], deepest)
    need 2
    let text ← takeLine
    let (rest, deepest) ← scanEmptyLines start indent fuel deepest
    return (text ++ rest, deepest)

/-- The lines of a block scalar.  `first` is the line break after the last line,
`more` the empty lines after it, `wasBlank` whether that line started with a
blank. -/
def scanBlockLines (isLiteral : Bool) (start : Mark) (indent : Nat) (chomping : Chomping) :
    (fuel : Nat) → (wasBlank : Bool) → (first more : List Char) → Scan (List Char)
  | 0, _, _, _ => pure []
  | fuel + 1, wasBlank, first, more => do
    let c ← current
    if (← here).column == indent && c != endChar then
      let blank := isBlank c
      let joint :=
        if !isLiteral && !wasBlank && !blank && first == ['\n'] then
          (if more.isEmpty then [' '] else [])
        else first
      let line ← takeWhile fun c => !isBreakOrEnd c
      need 2
      let next ← takeLine
      let (breaks, _) ← scanEmptyLines start indent (← charsLeft) 0
      let rest ← scanBlockLines isLiteral start indent chomping fuel blank next breaks
      return joint ++ more ++ line ++ rest
    else
      return match chomping with
        | .strip => []
        | .clip => first
        | .keep => first ++ more

/-- A block scalar, at its indicator. -/
def scanBlock (isLiteral : Bool) : Scan Token := do
  let start ← here
  advance
  let (chomping, increment) ← scanBlockHeader start
  scanLineEnd start (lineComment start)
  let outer := (← get).indent
  let given : Nat := if increment == 0 then 0 else (max outer 0 + increment).toNat
  let (breaks, deepest) ← scanEmptyLines start given (← charsLeft) 0
  let indent : Nat := if given == 0 then max (max deepest (outer + 1).toNat) 1 else given
  let text ← scanBlockLines isLiteral start indent chomping (← charsLeft) false [] breaks
  return ⟨.scalar (String.ofList text) (if isLiteral then .literal else .folded), start, ← here⟩

end Netlist.Yaml
