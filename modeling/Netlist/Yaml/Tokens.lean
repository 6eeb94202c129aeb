import Netlist.Yaml.Scalar

/-!
# Cutting a YAML text into tokens

Indentation becomes tokens too: a block starts where a deeper column holds an
entry or a key, and ends where the column falls back.  A key without an
indicator is recognised by the colon after it; until then its token waits in the
queue, so that the token for the key can be put in front of it.
-/

namespace Netlist.Yaml

/-! ## Possible keys -/

/-- How many characters a key without an indicator may take. -/
def keyReach : Nat := 1024

/-- How deep blocks and flow collections may be nested. -/
def maxDepth : Nat := 10000

def setKey (level : Nat) (key : PossibleKey) : Scan Unit :=
  modify fun s => { s with keys := s.keys.setIfInBounds level key }

def key? (level : Nat) : Scan (Option PossibleKey) := do return (← get).keys[level]?

/-- Whether the possible key of a level still can be one: it has to stay in one line
and within reach.  One that must be a key and cannot is an error. -/
def keyIsValid (level : Nat) : Scan Bool := do
  match ← key? level with
  | none => return false
  | some key =>
    if !key.possible then return false
    let mark ← here
    if key.mark.line < mark.line || key.mark.index + keyReach < mark.index then
      if key.required then failFrom key.mark .missingColon
      setKey level { key with possible := false }
      return false
    else return true

def keyLevel : Scan Nat := do return (← get).keys.size - 1

def forgetToken (token : Nat) : Scan Unit :=
  modify fun s => { s with keyLevels := s.keyLevels.erase token }

/-- Gives up the innermost possible key. -/
def removeKey : Scan Unit := do
  let level ← keyLevel
  match ← key? level with
  | none => pure ()
  | some key =>
    if key.possible then
      if key.required then failFrom key.mark .missingColon
      setKey level { key with possible := false }
      forgetToken key.token

/-- Notes that the next token may be a key. -/
def saveKey : Scan Unit := do
  let s ← get
  if s.keyAllowed then
    let key : PossibleKey :=
      { possible := true
        required := s.flow == 0 && s.indent == (s.mark.column : Int)
        token := s.parsed + s.queue.length
        mark := s.mark }
    removeKey
    let level ← keyLevel
    setKey level key
    modify fun s => { s with keyLevels := s.keyLevels.insert key.token level }

/-- Sets whether a key may start at the next token. -/
def allowKey (allowed : Bool) : Scan Unit := modify fun s => { s with keyAllowed := allowed }

/-! ## Nesting -/

def enterFlow : Scan Unit := do
  modify fun s => { s with
    keys := s.keys.push { token := s.parsed + s.queue.length, mark := s.mark }
    flow := s.flow + 1 }
  if maxDepth < (← get).flow then failFrom (← here) .tooDeep

/-- Leaves a flow collection, if there is one. -/
def leaveFlow : Scan Unit := do
  let s ← get
  if s.flow != 0 then
    match s.keys.back? with
    | none => pure ()
    | some key =>
      set { s with flow := s.flow - 1, keys := s.keys.pop }
      forgetToken key.token

/-- Starts a block at a column deeper than the blocks around, with its token in front
of the one with a number, or at the end. -/
def enterBlock (column : Nat) (before : Option Nat) (kind : TokenKind) (mark : Mark) :
    Scan Unit := do
  let s ← get
  if s.flow == 0 && s.indent < (column : Int) then
    set { s with indents := s.indent :: s.indents, indent := (column : Int) }
    if maxDepth < s.indents.length + 1 then
      failFrom ((s.keys.back?.map (·.mark)).getD {}) .tooDeep
    match before with
    | some number => pushBefore number ⟨kind, mark, mark⟩
    | none => push ⟨kind, mark, mark⟩

/-- Ends the blocks that are deeper than a column. -/
def leaveBlocksFor (column : Int) : (fuel : Nat) → (mark : Mark) → Scan Unit
  | 0, _ => pure ()
  | fuel + 1, mark => do
    let s ← get
    if s.flow == 0 && column < s.indent then
      match s.indents with
      | [] => pure ()
      | outer :: rest =>
        let mark := blockEndFrom s.indent mark.index mark s.comments.reverse
        push ⟨.blockEnd, mark, mark⟩
        modify fun s => { s with indent := outer, indents := rest }
        leaveBlocksFor column fuel mark

/-- Ends the blocks that are deeper than a column, one character before a mark or at a
comment. -/
def leaveBlocks (column : Int) (mark : Mark) : Scan Unit := do
  leaveBlocksFor column ((← get).indents.length) { mark with index := mark.index - 1 }

/-! ## Tokens one by one -/

/-- Passes a character at the start of a line when the characters in reach begin with a
byte order mark. -/
def passByteOrderMark : Scan Unit := do
  need 1
  let s ← get
  if s.mark.column == 0 && (← read).chars[s.base]?.any (·.toNat == 0xFEFF) then advance

/-- Passes blanks, comments and line breaks.  `scan` is where that began. -/
def toNextToken (scan : Mark) : (fuel : Nat) → Scan Unit
  | 0 => pure ()
  | fuel + 1 => do
    passByteOrderMark
    let s ← get
    advanceWhile fun c => c == ' ' || ((s.flow != 0 || !s.keyAllowed) && c == '\t')
    raiseComment
    if (← ahead 0) == '#' then commentLines scan
    if isBreak (← ahead 0) then
      need 2
      advanceLine
      if (← get).flow == 0 then allowKey true
      toNextToken scan fuel

def fetchEnd : Scan Unit := do
  modify fun s =>
    if s.mark.column == 0 then s
    else { s with mark := { s.mark with line := s.mark.line + 1, column := 0 } }
  leaveBlocks (-1) (← here)
  removeKey
  allowKey false
  let mark ← here
  push ⟨.streamEnd, mark, mark⟩

def fetchDirective : Scan Unit := do
  leaveBlocks (-1) (← here)
  removeKey
  allowKey false
  push (← scanDirective)

def fetchMarker (kind : TokenKind) : Scan Unit := do
  leaveBlocks (-1) (← here)
  removeKey
  allowKey false
  pushIndicator kind 3

def fetchFlowStart (kind : TokenKind) : Scan Unit := do
  saveKey
  enterFlow
  allowKey true
  pushIndicator kind 1

def fetchFlowEnd (kind : TokenKind) : Scan Unit := do
  removeKey
  leaveFlow
  allowKey false
  pushIndicator kind 1

/-- A comma in a flow collection. -/
def fetchFlowEntry : Scan Unit := do
  removeKey
  allowKey true
  pushIndicator .flowEntry 1

/-- The dash of a block sequence. -/
def fetchBlockEntry : Scan Unit := do
  let s ← get
  if s.flow == 0 then
    if !s.keyAllowed then failFrom s.mark .entryNotAllowed
    enterBlock s.mark.column none .blockSequenceStart s.mark
  removeKey
  allowKey true
  pushIndicator .blockEntry 1

def fetchKey : Scan Unit := do
  let s ← get
  if s.flow == 0 then
    if !s.keyAllowed then failFrom s.mark .keyNotAllowed
    enterBlock s.mark.column none .blockMappingStart s.mark
  removeKey
  allowKey (s.flow == 0)
  pushIndicator .key 1

/-- The colon of a value.  The possible key before it becomes a key. -/
def fetchValue : Scan Unit := do
  let level ← keyLevel
  let valid ← keyIsValid level
  match valid, ← key? level with
  | true, some key =>
    pushBefore key.token ⟨.key, key.mark, key.mark⟩
    enterBlock key.mark.column (some key.token) .blockMappingStart key.mark
    setKey level { key with possible := false }
    forgetToken key.token
    allowKey false
  | _, _ =>
    let s ← get
    if s.flow == 0 then
      if !s.keyAllowed then failFrom s.mark .valueNotAllowed
      enterBlock s.mark.column none .blockMappingStart s.mark
    allowKey (s.flow == 0)
  pushIndicator .value 1

def fetchWithKey (scan : Scan Token) : Scan Unit := do
  saveKey
  allowKey false
  push (← scan)

def fetchBlock (isLiteral : Bool) : Scan Unit := do
  removeKey
  allowKey true
  push (← scanBlock isLiteral)

/-- Whether a plain scalar may start with a character, given the one after it. -/
def startsPlain (inFlow : Bool) (c d : Char) : Bool :=
  !(isBlankOrEnd c || ['-', '?', ':', ',', '[', ']', '\x7b', '\x7d', '#', '&', '*', '!', '|', '>',
      '\'', '"', '%', '@', '\x60'].contains c) ||
    (c == '-' && !isBlank d) || (!inFlow && (c == '?' || c == ':') && !isBlankOrEnd d)

/-- The token that starts with a character, given the one after it. -/
def fetchAt (inFlow : Bool) (c d : Char) : Scan Unit := do
  if c == '[' then fetchFlowStart .flowSequenceStart
  else if c == '\x7b' then fetchFlowStart .flowMappingStart
  else if c == ']' then fetchFlowEnd .flowSequenceEnd
  else if c == '\x7d' then fetchFlowEnd .flowMappingEnd
  else if c == ',' then fetchFlowEntry
  else if c == '-' && isBlankOrEnd d then fetchBlockEntry
  else if c == '?' && (inFlow || isBlankOrEnd d) then fetchKey
  else if c == ':' && (inFlow || isBlankOrEnd d) then fetchValue
  else if c == '*' then fetchWithKey (scanAnchor .alias)
  else if c == '&' then fetchWithKey (scanAnchor .anchor)
  else if c == '!' then fetchWithKey scanTag
  else if c == '|' && !inFlow then fetchBlock true
  else if c == '>' && !inFlow then fetchBlock false
  else if c == '\'' then fetchWithKey (scanQuoted true)
  else if c == '"' then fetchWithKey (scanQuoted false)
  else if startsPlain inFlow c d then fetchWithKey scanPlain
  else failFrom (← here) .cannotStart

/-- Whether a token is the dash of a block sequence. -/
def isBlockEntry (t : Token) : Bool := t.kind == .blockEntry

def fetchNext : Scan Unit := do
  need 1
  if !(← get).started then
    let mark ← here
    modify fun s => { s with started := true, indent := -1, keys := #[{}], keyAllowed := true }
    push ⟨.streamStart, mark, mark⟩
  else
    let before ← here
    toNextToken before ((← charsLeft) + 1)
    leaveBlocks (← here).column before
    need 4
    let c ← ahead 0
    if c == endChar then fetchEnd
    else if (← here).column == 0 && c == '%' then fetchDirective
    else if ← atDocumentMarker then
      fetchMarker (if c == '-' then .documentStart else .documentEnd)
    else
      let s ← get
      let separates := if s.flow == 0 then c == ':' else c == ','
      let owner := if separates then (s.queue.getLast?.map (·.start)).getD s.mark else s.mark
      fetchAt (s.flow != 0) c (← ahead 1)
      if !((← get).queue.getLast?.any isBlockEntry) then lineComment owner

/-- How many tokens are found before one is handed out, because a comment belongs
to the tokens around it. -/
def lookahead : Nat := 3

/-- Finds tokens until the first one in the queue can be handed out: enough follow
it, and it cannot become a key any more. -/
def fetchMore : (fuel : Nat) → Scan Unit
  | 0 => pure ()
  | fuel + 1 => do
    let s ← get
    let ready ←
      if s.queue.length < lookahead then pure false
      else
        match s.keyLevels[s.parsed]? with
        | none => pure true
        | some level => do
          let valid ← keyIsValid level
          pure !valid
    if !ready then
      fetchNext
      fetchMore fuel

/-- The token that is handed out next, which stays there, and the last of the comments in
front of it that belong to what follows. -/
def frontToken : Scan (Token × Option Comment) := do
  if !(← get).ready then
    fetchMore ((← charsLeft) + lookahead + 1)
    modify fun s => { s with ready := true }
  let s ← get
  match s.queue with
  | [] => return (⟨.streamEnd, s.mark, s.mark⟩, none)
  | t :: _ => return (t, ← takeComments t)

/-- The scanner after its first token is handed out. -/
def Scanner.handOut (s : Scanner) : Scanner :=
  { s with queue := s.queue.drop 1, parsed := s.parsed + 1, ready := false }

end Netlist.Yaml
