import Netlist.Toml.Builder

/-!
# Reading TOML documents

A document is a sequence of definitions and table headers, one a line.  Reading takes
fuel for the depth of values and for the number of items; the length of the document
bounds both.
-/

namespace Netlist.Toml

/-- A document that was read. -/
structure Document where
  root : Table
  /-- Its keys, in order, with the headers. -/
  keys : List Key
  /-- What is known about its keys. -/
  facts : KeyFacts

namespace Parse

/-! ## Keys -/

def keyPart (sight : Sight) : Parse String := do
  if sight == some '"' then
    discard (scan Scan.next)
    let raw ← scan (do Lexeme.readShort (← Scan.budget) [])
    meaning (stringMeaning raw)
  else if sight == some '\'' then
    discard (scan Scan.next)
    scan (do Lexeme.readShortLiteral (← Scan.budget) [])
  else return String.ofList (← scan (Scan.takeWhile isBare))

/-- Notes the line of the first part of a key. -/
def markLine (parts : List String) : Parse Unit := do
  if parts.length == 1 then
    let line := (← scan get).line
    modify fun b => { b with line := line }

/-- Reads the parts of a key up to the equals sign. -/
def keyParts : (fuel : Nat) → (parts : List String) → Parse Key
  | 0, parts => return parts
  | fuel + 1, parts => do
    scan Scan.skipBlanks
    let sight ← scan Scan.peek
    if sight == some '=' || sight.isNone then scan (Scan.fail .keyMissing)
    else if sight == some '.' then scan (Scan.fail .doubleDot)
    else
      let parts := parts ++ [← keyPart sight]
      markLine parts
      scan Scan.skipBlanks
      match ← scan Scan.next with
      | none => scan (Scan.failBefore .separatorMissing)
      | some '.' => keyParts fuel parts
      | some '=' => return parts
      | some c => scan (Scan.fail (.separatorExpected (some c)))

/-- Reads a key up to the equals sign. -/
def key : Parse Key := do
  scan Scan.skipBlanks
  let sight ← scan Scan.peek
  if sight == some '=' || sight.isNone then scan (Scan.fail .blankKey)
  else if sight == some '.' then scan (Scan.fail .leadingKeyDot)
  else keyParts (← scan Scan.budget) []

/-- Reads the parts of a table's name up to the closing bracket. -/
def nameParts : (fuel : Nat) → (parts : List String) → Parse Key
  | 0, parts => return parts
  | fuel + 1, parts => do
    scan Scan.skipBlanks
    let sight ← scan Scan.peek
    if sight == some ']' || sight.isNone then scan (Scan.fail .emptyTableName)
    else if sight == some '.' then scan (Scan.fail .leadingTableDot)
    else
      let parts := parts ++ [← keyPart sight]
      markLine parts
      scan Scan.skipBlanks
      match ← scan Scan.next with
      | some '.' => nameParts fuel parts
      | some ']' => return parts
      | c => scan (Scan.failAt c (.tableNameEnd c))

/-! ## Values -/

mutual

/-- The value that a lexeme starts, with the line of the lexeme.  `inArray` says whether it
stands in an array. -/
def value (inArray : Bool) : (fuel : Nat) → Lexeme → Parse (Value × Nat)
  | 0, _ => return (.boolean false, 0)
  | fuel + 1, lexeme => do
    let line := (← scan get).line
    match lexeme with
    | .string raw => return (.text (← meaning (stringMeaning raw)), line)
    | .longString raw => return (.text (← meaning (longStringMeaning raw)), line)
    | .literal text => return (.text text, line)
    | .longLiteral text => return (.text (String.ofList (stripFirstBreak text.toList)), line)
    | .integer text => return (.integer (← meaning (integerMeaning text)), line)
    | .float text =>
      meaning (floatMeaning text)
      return (.float, line)
    | .datetime text =>
      meaning (datetimeMeaning text)
      return (.datetime, line)
    | .boolean b => return (.boolean b, line)
    | .openArray =>
      let name := (← get).current
      modify (·.note name true line)
      return (.array (← arrayItems fuel), line)
    | .openTable =>
      let outer ← get
      let context := outer.context ++ [outer.current]
      set { outer with context := context, current := "" }
      enter context inArray true
      let members ← tableMembers context fuel
      modify fun b => { b with context := outer.context, current := outer.current }
      return (.table members, line)

/-- The items of an array, after its opening bracket or a comma. -/
def arrayItems : (fuel : Nat) → Parse (List Value)
  | 0 => return []
  | fuel + 1 => do
    scan (do Scan.skipGaps (← Scan.budget))
    match ← scan Scan.peek with
    | some ',' =>
      discard (scan Scan.next)
      scan (Scan.fail .unexpectedComma)
    | some ']' =>
      discard (scan Scan.next)
      return []
    | _ =>
      let (v, _) ← value true fuel (← scan Lexeme.read)
      scan (do Scan.skipGaps (← Scan.budget))
      match ← scan Scan.next with
      | some ',' => return v :: (← arrayItems fuel)
      | some ']' => return [v]
      | c => scan (Scan.failAt c (.arraySeparator c))

/-- The members of an inline table, after its opening brace or a comma.  `context` is the
key of the table. -/
def tableMembers (context : Key) : (fuel : Nat) → Parse Table
  | 0 => return []
  | fuel + 1 => do
    scan Scan.skipBlanks
    if (← scan Scan.peek) == some '#' then scan Scan.skipComment
    match ← scan Scan.peek with
    | some ',' =>
      discard (scan Scan.next)
      scan (Scan.fail .unexpectedComma)
    | some '\x7d' =>
      discard (scan Scan.next)
      return []
    | some '\n' => scan (do discard Scan.next; Scan.failBefore .tableBreak)
    | some '\r' => scan (do discard Scan.next; Scan.failBefore .tableBreak)
    | _ =>
      let line := (← scan get).line
      begin_ (← key)
      let name := (← get).current
      let (v, _) ← value false fuel (← scan Lexeme.read)
      assign v line
      modify fun b => { b with context := context }
      let member := (name, v)
      scan Scan.skipBlanks
      if (← scan Scan.peek) == some '#' then scan Scan.skipComment
      match ← scan Scan.next with
      | some ',' =>
        scan Scan.skipBlanks
        if (← scan Scan.peek) == some '\x7d' then scan (Scan.fail .trailingComma)
        let rest ← tableMembers context fuel
        return member :: rest
      | some '\x7d' => return [member]
      | some '\n' => scan (Scan.failBefore .tableBreak)
      | some '\r' => scan (Scan.failBefore .tableBreak)
      | c => scan (Scan.failAt c (.tableSeparator c))

end

/-! ## Lines -/

/-- Reads a table header after its first bracket. -/
def header : Parse Unit := do
  let line := (← scan get).line
  let inArray ← scan (Scan.accept '[')
  let name ← nameParts (← scan Scan.budget) []
  if inArray then
    match ← scan Scan.next with
    | some ']' => pure ()
    | c => scan (Scan.failAt c (.arrayNameEnd c))
  enter name inArray false
  modify (·.note "" false line)
  modify fun b => { b with keys := b.keys.push name }

def definition : Parse Unit := do
  let context := (← get).context
  begin_ (← key)
  let fuel ← scan Scan.budget
  let (v, line) ← value false fuel (← scan Lexeme.read)
  assign v line
  modify fun b => { b with context := context, current := "" }

def lineEnd : Parse Unit := do
  scan Scan.skipBlanks
  match ← scan Scan.peek with
  | none => return
  | some '#' => scan Scan.skipComment
  | some c =>
    discard (scan Scan.next)
    if Scan.isBreak c then return else scan (Scan.fail (.afterItem (some c)))

def items : (fuel : Nat) → Parse Unit
  | 0 => return
  | fuel + 1 => do
    scan (do Scan.skipGaps (← Scan.budget))
    match ← scan Scan.peek with
    | none => return
    | some '[' =>
      discard (scan Scan.next)
      header
      lineEnd
      items fuel
    | some _ =>
      definition
      lineEnd
      items fuel

end Parse

def dropMark (content : Bytes) : Bytes :=
  if [0xFF, 0xFE].isPrefixOf content || [0xFE, 0xFF].isPrefixOf content then content.drop 2
  else if [0xEF, 0xBB, 0xBF].isPrefixOf content then content.drop 3
  else content

def Document.read (content : Bytes) : Except Fault Document :=
  let content := dropMark content
  if (content.take 6).contains 0 then .error { line := 1, problem := .zeroBytes }
  else
    match Parse.items (content.length + 1) {} { rest := content, steps := content.length + 1 } with
    | .ok (((), b), _) => .ok ⟨b.root, b.keys.toList, b.facts⟩
    | .error f => .error f

end Netlist.Toml
