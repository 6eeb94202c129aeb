import Netlist.Yaml.Node
import Netlist.Yaml.Tokens

/-!
# Reading YAML

`read` gives the first document of a text.  The tokens are put together by
recursive descent, and the scanner is asked for each of them when the reader gets
to it.

Reading goes in steps: a scalar is one, and so are the start and the end of a list,
a map or the document.  An error that the scanner went on after counts at the end of
a step (`endStep`), unless the step finds another one first.  There are two ways to
go on: bytes that were only looked at in search of a comment are no part of a token,
and a token that was only looked at to see whether a block starts is asked for again
(`dropDash`).

A comment waits for the node that it belongs to.

Every call takes a token or is followed by one that does, and a character gives at
most four tokens, so sixteen times the number of characters is fuel enough.
-/

namespace Netlist.Yaml

/-- The state of the reader. -/
structure Composer where
  scanner : Scanner := {}
  /-- The last comment that waits for its node. -/
  comment : Option Comment := none
  /-- The handles of tags and what they stand for. -/
  handles : List (String × String) := []
  /-- The numbers of the anchors, the latest first. -/
  anchors : List (String × Nat) := []
  /-- How many anchors there are. -/
  anchorCount : Nat := 0
  /-- The anchored nodes that are complete. -/
  anchored : List (Nat × Node) := []

/-- A step of the reader over a text. -/
abbrev Compose := ReaderT Input (StateT Composer (Except Error))

/-- Lets the scanner do something. -/
def scan {α : Type} (step : Scan α) : Compose (Except Error α) := do
  let input ← read
  modifyGet fun c =>
    let s := c.scanner
    let c := { c with scanner := {} }
    let (result, s) := ((step.run input).run).run s
    (result, { c with scanner := s })

/-- Changes the comment that waits. -/
def modifyComment (f : Option Comment → Option Comment) : Compose Unit :=
  modify fun s => { s with comment := f s.comment }

/-- The next token, which stays there.  Its comments wait from here on. -/
def peekToken : Compose Token := do
  match ← scan frontToken with
  | .ok (t, comment) =>
    modifyComment fun waiting => comment.orElse fun _ => waiting
    return t
  | .error e => throw e

def dropToken : Compose Unit := modify fun s => { s with scanner := s.scanner.handOut }

/-- Passes a token and gives the one after it. -/
def dropPeek : Compose Token := do
  dropToken
  peekToken

/-- Passes the dash of an entry and gives the token after it.  A comment in front of the
dash belongs to the block that starts after it.  Where there is such a comment the token
is looked at first, and an error then does not stop the step. -/
def dropDash : Compose Token := do
  let waiting := (← get).comment
  dropToken
  if waiting.isSome then
    match ← scan frontToken with
    | .error _ => pure ()
    | .ok (t, comment) =>
      let startsBlock := t.kind == .blockSequenceStart || t.kind == .blockMappingStart
      modifyComment fun _ => comment.orElse fun _ => if startsBlock then none else waiting
  peekToken

/-- Ends a step: an error that the scanner went on after counts from here on. -/
def endStep : Compose Unit := do
  match (← get).scanner.fault with
  | none => pure ()
  | some e => throw e

/-- Ends a step of which the comments that wait are a part. -/
def endCommented : Compose Unit := do
  endStep
  modifyComment fun _ => none

def Mark.place (m : Mark) : Place := ⟨m.line + 1, m.column + 1⟩

def emptyScalar (m : Mark) : Compose Node := do
  endStep
  return .scalar { place := m.place, text := "" }

/-- The anchor and the tag in front of a node. -/
structure Properties where
  anchor : Option String := none
  tag : String := ""
  /-- Where they start, or the node when there are none. -/
  start : Mark

def expandTag (start tagStart : Mark) (handle suffix : String) : Compose String := do
  if handle.isEmpty then return suffix
  match (← get).handles.lookup handle with
  | some expansion => return expansion ++ suffix
  | none => throw (Error.inNode .undefinedHandle start tagStart)

/-- Reads the anchor and the tag in front of a node, in either order. -/
def readProperties : Compose Properties := do
  let first ← peekToken
  match first.kind with
  | .anchor name =>
    let second ← dropPeek
    match second.kind with
    | .tag handle suffix =>
      let _ ← dropPeek
      return ⟨some name, ← expandTag first.start second.start handle suffix, first.start⟩
    | _ => return ⟨some name, "", first.start⟩
  | .tag handle suffix =>
    let second ← dropPeek
    match second.kind with
    | .anchor name =>
      let _ ← dropPeek
      return ⟨some name, ← expandTag first.start first.start handle suffix, first.start⟩
    | _ => return ⟨none, ← expandTag first.start first.start handle suffix, first.start⟩
  | _ => return ⟨none, "", first.start⟩

/-- Gives a node's anchor a number, so that aliases can refer to it. -/
def openAnchor (name : Option String) : Compose (Option Nat) := do
  match name with
  | none => return none
  | some name =>
    let s ← get
    set { s with anchors := (name, s.anchorCount) :: s.anchors, anchorCount := s.anchorCount + 1 }
    return some s.anchorCount

/-- Keeps a complete node under the number of its anchor. -/
def closeAnchor (number : Option Nat) (n : Node) : Compose Node := do
  match number with
  | none => pure ()
  | some k => modify fun s => { s with anchored := (k, n) :: s.anchored }
  return n

mutual

/-- Reads a node.  `block` says whether a block may start here, `indentless` whether
the entries of a sequence may stand at the column of the mapping around. -/
def readNode : (fuel : Nat) → (block indentless : Bool) → Compose Node
  | 0, _, _ => throw ⟨.expectedContent, none⟩
  | fuel + 1, block, indentless => do
    let t ← peekToken
    match t.kind with
    | .alias name =>
      endCommented
      dropToken
      match (← get).anchors.lookup name with
      | some k => return .alias k
      | none => throw ⟨.unknownAnchor name, none⟩
    | _ =>
      let p ← readProperties
      let t ← peekToken
      let place := p.start.place
      match t.kind with
      | .scalar text style =>
        endCommented
        let number ← openAnchor p.anchor
        dropToken
        closeAnchor number (.scalar ⟨place, p.tag, style, text⟩)
      | .flowSequenceStart =>
        endCommented
        let number ← openAnchor p.anchor
        dropToken
        closeAnchor number (.list place (← readFlowItems fuel t.start true))
      | .flowMappingStart =>
        endCommented
        let number ← openAnchor p.anchor
        dropToken
        closeAnchor number (.map place (← readFlowMembers fuel t.start true))
      | kind =>
        if indentless && kind == .blockEntry then
          endStep
          let number ← openAnchor p.anchor
          closeAnchor number (.list place (← readIndentlessItems fuel))
        else if block && kind == .blockSequenceStart then
          endStep
          let number ← openAnchor p.anchor
          dropToken
          closeAnchor number (.list place (← readBlockItems fuel t.start))
        else if block && kind == .blockMappingStart then
          endStep
          let number ← openAnchor p.anchor
          dropToken
          closeAnchor number (.map place (← readBlockMembers fuel t.start))
        else if p.anchor.isSome || !p.tag.isEmpty then
          endStep
          let number ← openAnchor p.anchor
          closeAnchor number (.scalar { place := place, tag := p.tag, text := "" })
        else throw (Error.inNode .expectedContent p.start t.start)

def readBlockItems : (fuel : Nat) → (start : Mark) → Compose (List Node)
  | 0, start => throw (Error.inNode .expectedDash start start)
  | fuel + 1, start => do
    let t ← peekToken
    match t.kind with
    | .blockEntry =>
      let next ← dropDash
      let item ←
        if next.kind == .blockEntry || next.kind == .blockEnd then emptyScalar t.stop
        else readNode fuel true false
      return item :: (← readBlockItems fuel start)
    | .blockEnd =>
      endStep
      dropToken
      return []
    | _ => throw (Error.inNode .expectedDash start t.start)

/-- Reads the entries of a sequence at the column of the mapping around. -/
def readIndentlessItems : (fuel : Nat) → Compose (List Node)
  | 0 => throw ⟨.expectedDash, none⟩
  | fuel + 1 => do
    let t ← peekToken
    match t.kind with
    | .blockEntry =>
      let next ← dropDash
      let item ←
        if [.blockEntry, .key, .value, .blockEnd].contains next.kind then emptyScalar t.stop
        else readNode fuel true false
      return item :: (← readIndentlessItems fuel)
    | _ =>
      endStep
      return []

def readBlockMembers : (fuel : Nat) → (start : Mark) → Compose (List (Node × Node))
  | 0, start => throw (Error.inNode .expectedKey start start)
  | fuel + 1, start => do
    let t ← peekToken
    match t.kind with
    | .key =>
      let next ← dropPeek
      let key ←
        if [.key, .value, .blockEnd].contains next.kind then emptyScalar t.stop
        else readNode fuel true true
      let value ← readBlockValue fuel
      return (key, value) :: (← readBlockMembers fuel start)
    | .blockEnd =>
      endCommented
      dropToken
      return []
    | _ => throw (Error.inNode .expectedKey start t.start)

/-- Reads the value of a member of a block mapping. -/
def readBlockValue : (fuel : Nat) → Compose Node
  | 0 => throw ⟨.expectedContent, none⟩
  | fuel + 1 => do
    let t ← peekToken
    match t.kind with
    | .value =>
      let next ← dropPeek
      if [.key, .value, .blockEnd].contains next.kind then emptyScalar t.stop
      else readNode fuel true true
    | _ => emptyScalar t.start

/-- Reads the items of a flow sequence after its bracket or an item. -/
def readFlowItems : (fuel : Nat) → (start : Mark) → (first : Bool) → Compose (List Node)
  | 0, start, _ => throw (Error.inNode .expectedCommaOrBracket start start)
  | fuel + 1, start, first => do
    let t ← peekToken
    let t ←
      if t.kind == .flowSequenceEnd || first then pure t
      else if t.kind == .flowEntry then dropPeek
      else throw (Error.inNode .expectedCommaOrBracket start t.start)
    match t.kind with
    | .flowSequenceEnd =>
      endCommented
      dropToken
      return []
    | .key =>
      endStep
      dropToken
      let pair ← readFlowPair fuel
      return .map t.start.place [pair] :: (← readFlowItems fuel start false)
    | _ =>
      let item ← readNode fuel false false
      return item :: (← readFlowItems fuel start false)

/-- Reads a pair that stands as an item of a flow sequence. -/
def readFlowPair : (fuel : Nat) → Compose (Node × Node)
  | 0 => throw ⟨.expectedContent, none⟩
  | fuel + 1 => do
    let t ← peekToken
    let key ←
      if [.value, .flowEntry, .flowSequenceEnd].contains t.kind then
        dropToken
        emptyScalar t.stop
      else readNode fuel false false
    let t ← peekToken
    let value ←
      if t.kind == .value then
        let next ← dropPeek
        if [.flowEntry, .flowSequenceEnd].contains next.kind then emptyScalar t.start
        else readNode fuel false false
      else emptyScalar t.start
    let _ ← peekToken
    endStep
    return (key, value)

/-- Reads the members of a flow mapping after its brace or a member. -/
def readFlowMembers :
    (fuel : Nat) → (start : Mark) → (first : Bool) → Compose (List (Node × Node))
  | 0, start, _ => throw (Error.inNode .expectedCommaOrBrace start start)
  | fuel + 1, start, first => do
    let t ← peekToken
    let t ←
      if t.kind == .flowMappingEnd || first then pure t
      else if t.kind == .flowEntry then dropPeek
      else throw (Error.inNode .expectedCommaOrBrace start t.start)
    match t.kind with
    | .flowMappingEnd =>
      endCommented
      dropToken
      return []
    | .key =>
      let next ← dropPeek
      let key ←
        if [.value, .flowEntry, .flowMappingEnd].contains next.kind then
          emptyScalar next.start
        else readNode fuel false false
      let value ← readFlowValue fuel
      return (key, value) :: (← readFlowMembers fuel start false)
    | _ =>
      let key ← readNode fuel false false
      let t ← peekToken
      let value ← emptyScalar t.start
      return (key, value) :: (← readFlowMembers fuel start false)

/-- Reads the value of a member of a flow mapping. -/
def readFlowValue : (fuel : Nat) → Compose Node
  | 0 => throw ⟨.expectedContent, none⟩
  | fuel + 1 => do
    let t ← peekToken
    if t.kind == .value then
      let next ← dropPeek
      if [.flowEntry, .flowMappingEnd].contains next.kind then emptyScalar next.start
      else readNode fuel false false
    else emptyScalar t.start

end

/-- The handles that every document has. -/
def defaultHandles : List (String × String) := [("!", "!"), ("!!", coreTags)]

def readDirectives : (fuel : Nat) → (versioned : Bool) → Compose Unit
  | 0, _ => pure ()
  | fuel + 1, versioned => do
    let t ← peekToken
    match t.kind with
    | .versionDirective major minor =>
      if versioned then throw (Error.inNode .duplicateVersion t.start t.start)
      if major != 1 || minor != 1 then throw (Error.inNode .incompatibleVersion t.start t.start)
      dropToken
      readDirectives fuel true
    | .tagDirective handle expansion =>
      let s ← get
      if (s.handles.lookup handle).isSome then
        throw (Error.inNode .duplicateTag t.start t.start)
      set { s with handles := s.handles ++ [(handle, expansion)] }
      dropToken
      readDirectives fuel versioned
    | _ => modify fun s => { s with handles := s.handles ++ defaultHandles }

/-- Whether a token ends the content of a document. -/
def endsDocument : TokenKind → Bool
  | .versionDirective _ _ => true
  | .tagDirective _ _ => true
  | .documentStart => true
  | .documentEnd => true
  | .streamEnd => true
  | _ => false

def startsDocument : TokenKind → Bool
  | .versionDirective _ _ => true
  | .tagDirective _ _ => true
  | .documentStart => true
  | _ => false

/-- Reads the first document, if there is one, up to the token after it. -/
def readDocument (fuel : Nat) : Compose (Option Node) := do
  let _ ← peekToken
  endStep
  let t ← dropPeek
  if t.kind == .streamEnd then
    endStep
    return none
  else
    readDirectives fuel false
    let root ←
      if startsDocument t.kind then do
        let t ← peekToken
        if t.kind != .documentStart then
          throw (Error.inNode .expectedDocumentStart t.start t.start)
        endStep
        let t ← dropPeek
        if endsDocument t.kind then emptyScalar t.start else readNode fuel true false
      else
        endStep
        modifyComment fun c => c.filter (!·.spaced)
        readNode fuel true false
    let _ ← peekToken
    endStep
    return some root

/-- The first document of a text, if there is one. -/
def read (bytes : Bytes) : Except Error (Option Tree) :=
  let input := Input.ofBytes (if bytes.isEmpty then [10] else bytes)
  match ((readDocument (16 * input.chars.size + 64)).run input).run {} with
  | .error e => .error e
  | .ok (none, _) => .ok none
  | .ok (some root, s) => .ok (some ⟨root, s.anchored⟩)

end Netlist.Yaml
