import Netlist.Yaml.Scanner

/-!
# Comments

A comment after a token in the same line belongs to that token.  Comments in
lines of their own come in runs: an empty line, a bracket that closes a flow
collection or a change of column may cut a run in two.  What stands before the
cut belongs to the content above, and the rest to what follows.

A comment is looked for within a fixed reach, and a fault in the bytes there does
not stop the scanner.
-/

namespace Netlist.Yaml

/-- How far ahead a comment is looked for. -/
def commentReach : Nat := 512

/-- Keeps a comment for its token. -/
def pushComment (c : Comment) : Scan Unit :=
  modify fun s => { s with comments := s.comments ++ [c] }

/-! ## After a token -/

/-- The number of blanks before a comment in the same line, if there is one. -/
def commentAhead : (fuel count : Nat) → Scan (Option Nat)
  | 0, _ => pure none
  | fuel + 1, count => do
    if !(← reach (count + 1)) then return none
    let c ← ahead count
    if isBlank c then commentAhead fuel (count + 1)
    else if c == '#' then return some count
    else return none

/-- Passes a comment that follows a token in the same line. -/
def lineComment (owner : Mark) : Scan Unit := do
  if (← get).newlines == 0 then
    match ← commentAhead commentReach 0 with
    | none => pure ()
    | some count =>
      advanceBy count
      let start ← here
      advanceWhile fun c => !isBreakOrEnd c
      pushComment { place := .line, owner := owner, start := start }

/-! ## In lines of their own -/

/-- What is known of a run of comments. -/
structure CommentRun where
  /-- Where the blanks before the run start. -/
  scan : Mark
  /-- The place of the token above. -/
  owner : Mark
  /-- Whether the token above is the colon of a value. -/
  afterValue : Bool
  /-- The line in which a comment belongs to the content above, if there is one. -/
  footLine : Option Int
  /-- Whether a comment has been read that is not kept yet. -/
  pending : Bool := false
  start : Mark := {}
  /-- Whether an empty line follows that comment. -/
  spaced : Bool := false
  /-- Whether no empty line came before it. -/
  firstEmpty : Bool
  /-- Whether the last line was empty. -/
  recentEmpty : Bool := false
  line : Nat
  /-- The column that is looked at, counted from one. -/
  column : Nat

def blockColumn : Scan Int := do return max (← get).indent 0

/-- The place that is looked at, some characters ahead. -/
def CommentRun.sight (run : CommentRun) (count : Nat) : Scan Mark := do
  return ⟨(← here).index + count, run.line, run.column⟩

/-- Ends the pending comment as one that belongs to the content above. -/
def CommentRun.cut (run : CommentRun) (count : Nat) : Scan CommentRun := do
  if !run.pending then return run
  let stop ← run.sight count
  pushComment
    { place := .foot, owner := run.owner, start := run.start, scan := run.scan, stop := stop }
  return { run with scan := stop, owner := stop, pending := false }

/-- What a line break, the end or a closing bracket does to a run. -/
def CommentRun.close (run : CommentRun) (closes : Bool) (c : Char) (count : Nat) :
    Scan CommentRun := do
  let dedented := (run.start.column : Int) - 1 < (← blockColumn)
  let below := run.footLine == some (run.start.line : Int) && !run.afterValue
  if run.pending && (closes || (!run.recentEmpty && run.firstEmpty && (below || dedented))) then
    -- a comment left of the block has nothing to do with the content above
    CommentRun.cut { run with owner := if dedented then run.start else run.owner } count
  else return { run with spaced := run.spaced || (!run.recentEmpty && c != endChar) }

/-- Looks at a character that starts no line break and is not blank: cuts the run if the
column changed, and says whether a comment starts here. -/
def CommentRun.meet (run : CommentRun) (c : Char) (count : Nat) :
    Scan (Bool × Nat × CommentRun) := do
  let dedented := (run.column : Int) - 1 < (← blockColumn)
  let run ← if dedented && run.column != run.start.column then run.cut count else pure run
  return (c == '#', count, run)

/-- Looks for the next comment of a run.  Gives whether there is one and how far it is. -/
def CommentRun.look (inFlow : Bool) :
    (fuel count : Nat) → CommentRun → Scan (Bool × Nat × CommentRun)
  | 0, count, run => return (false, count, run)
  | fuel + 1, count, run => do
    if !(← reach (count + 1)) then return (false, count, run)
    let run := { run with column := run.column + 1 }
    let c ← ahead count
    if isBlank c then CommentRun.look inFlow fuel (count + 1) run
    else
      let closes := inFlow && (c == ']' || c == '\x7d')
      if closes || isBreakOrEnd c then
        let run ← run.close closes c count
        if !isBreak c then return (false, count, run)
        let run :=
          { run with firstEmpty := false, recentEmpty := true, column := 0, line := run.line + 1 }
        if c == '\r' || c == '\n' then CommentRun.look inFlow fuel (count + 1) run
        -- a line break outside ASCII ends the search one column further
        else if fuel == 0 then return (false, count + 1, run)
        else if !(← reach (count + 2)) then return (false, count + 1, run)
        else CommentRun.meet { run with column := 1 } c (count + 1)
      else run.meet c count

/-- Whether a character is a line break outside ASCII. -/
def isWideBreak (c : Char) : Bool := isBreak c && c != '\r' && c != '\n'

/-- Looks for the next comment from some characters ahead on.  After a comment, which ends
at a line break, that is one character ahead; a line break outside ASCII ends the search
there. -/
def CommentRun.lookFrom (inFlow : Bool) (count : Nat) (run : CommentRun) :
    Scan (Bool × Nat × CommentRun) := do
  let c ← ahead 0
  if count == 1 && isWideBreak c then
    if !(← reach 2) then return (false, count, run)
    CommentRun.meet { run with column := 1 } c count
  else CommentRun.look inFlow (commentReach - count) count run

/-- Passes blanks and line breaks up to a place. -/
def advanceTo (index : Nat) : (fuel : Nat) → Scan Unit
  | 0 => pure ()
  | fuel + 1 => do
    if (← here).index < index then
      if isBreak (← current) then
        need 2
        advanceLine
      else advance
      advanceTo index fuel

/-- Passes the comments of a run from `count` characters ahead on, up to the end of the
last comment line. -/
def CommentRun.pass (inFlow : Bool) : (fuel count : Nat) → CommentRun → Scan Unit
  | 0, _, _ => pure ()
  | fuel + 1, count, run => do
    let (found, count, run) ← CommentRun.lookFrom inFlow count run
    if found then
      let start ← if run.pending then pure run.start else run.sight count
      advanceTo ((← here).index + count) (count + 1)
      advanceWhile fun c => !isBreakOrEnd c
      CommentRun.pass inFlow fuel 1
        { run with start := start, pending := true, spaced := false, recentEmpty := false
                   column := 0, line := (← here).line }
    else if run.pending then
      let stop ← run.sight count
      pushComment { place := .head, owner := run.start, start := run.start, scan := run.scan
                    stop := { stop with index := stop.index - 1 }, spaced := run.spaced }

/-- The token that comments here follow: the last one, or the one before a comma. -/
def tokenAbove : Scan (Option Token) := do
  match (← get).queue.reverse with
  | t :: u :: _ => return some (if t.kind == .flowEntry then u else t)
  | [t] => return some t
  | [] => return none

/-- Passes a run of comments, at the first of them. -/
def commentLines (scan : Mark) : Scan Unit := do
  let s ← get
  let above ← tokenAbove
  let footLine : Int :=
    (s.mark.line : Int) - s.newlines + 1 + (if s.newlines == 0 && 1 < s.mark.column then 1 else 0)
  let run : CommentRun :=
    { scan := scan
      owner := (above.map (·.start)).getD {}
      afterValue := above.any (·.kind == .value)
      footLine := if scan.column == 0 then none else some footLine
      firstEmpty := s.newlines ≤ 1
      line := s.mark.line
      column := s.mark.column }
  run.pass (s.flow != 0) ((← charsLeft) + 1) 0

/-- Makes a comment after the first dash of a sequence belong to what follows, unless the
line ends here. -/
def raiseComment : Scan Unit := do
  let s ← get
  match s.queue.reverse, s.comments.getLast? with
  | t :: u :: _, some c =>
    if u.kind == .blockSequenceStart && t.kind == .blockEntry && c.place == .line &&
        !isBreak (← ahead 0) then
      let owner := if c.start.line + 1 == s.mark.line then s.mark else c.owner
      set { s with
        comments := s.comments.dropLast ++ [{ c with place := .head, owner := owner }] }
  | _, _ => pure ()

/-! ## Handing out -/

/-- Whether a token takes a comment.  The end of a block takes none that belongs to what
follows. -/
def Comment.isTakenBy (c : Comment) (t : Token) : Bool :=
  c.owner.index ≤ t.start.index && !(c.place == .head && t.kind == .blockEnd)

/-- Takes the comments of a token.  Gives the last of those that belong to what
follows. -/
def takeComments (t : Token) : Scan (Option Comment) := do
  let s ← get
  set { s with comments := s.comments.dropWhile (·.isTakenBy t) }
  return ((s.comments.takeWhile (·.isTakenBy t)).filter (·.place == .head)).getLast?

/-- Where a block of a column ends.  Of the comments in the column of the block that follow
each other up to `mark`, the first one ends it.  The last comment comes first. -/
def blockEndFrom (indent : Int) : (stop : Nat) → (mark : Mark) → List Comment → Mark
  | _, mark, [] => mark
  | stop, mark, c :: rest =>
    if c.stop.index < stop then mark
    else
      blockEndFrom indent c.scan.index
        (if (c.start.column : Int) == indent + 1 then c.start else mark) rest

end Netlist.Yaml
