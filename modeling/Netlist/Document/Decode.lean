import Netlist.Diagnostic.Basic
import Netlist.Document.Basic
import Netlist.Text.Blank
import Netlist.Text.Composed
import Netlist.Yaml.Read

/-!
# From YAML to documents

A document is read from the tree of a design file.  What has the wrong shape is
reported and left out; the rest is kept, so there is a document for every file.
-/

namespace Netlist

/-! ## Places in the file -/

/-- The byte column of a column counted in characters, both from one, in the line in
front.  Past the end of the line the columns go on as if each character had one byte.
`seen` and `offset` count the characters and bytes so far, and `skip` the bytes at the
front that the last character has used up. -/
def byteColumn (column : Int) : (seen offset skip : Nat) → Bytes → Int
  | seen, offset, _, [] => offset + 1 + max (column - (seen + 1)) 0
  | seen, offset, skip + 1, _ :: rest => byteColumn column seen offset skip rest
  | seen, offset, 0, b :: rest =>
    if b == Lines.lineFeed then offset + 1 + max (column - (seen + 1)) 0
    else if column == (seen + 1 : Nat) then offset + 1
    else
      let width := ((Bytes.headChar? (b :: rest)).map (·.2)).getD 1
      byteColumn column (seen + 1) (offset + width) (width - 1) rest

def placeOffset (f : SourceFile) (p : Yaml.Place) : UInt32 :=
  let line := Span.offsetOf p.line
  f.offset ⟨line, Span.offsetOf (byteColumn p.column 0 0 0 (f.fromLine line))⟩

/-- The empty span at a place; the start of the file for a node without a place. -/
def placeSpan (f : SourceFile) (p : Yaml.Place) : Span :=
  if p.line == 0 then Span.fileStart f.id
  else
    let start := placeOffset f p
    ⟨f.id, start, start⟩

/-- The span of the text of a scalar, kept inside the file. -/
def scalarSpan (f : SourceFile) (s : Yaml.Scalar) : Span :=
  if s.place.line == 0 then Span.fileStart f.id
  else
    let start := placeOffset f s.place + (if s.style.isQuoted then 1 else 0)
    let stop := min (start + UInt32.ofNat s.text.utf8ByteSize) (UInt32.ofNat f.content.length)
    ⟨f.id, min start stop, stop⟩

/-- The span of a node; the start of the file for none. -/
def nodeSpan (f : SourceFile) : Option Yaml.Node → Span
  | some (.scalar s) => scalarSpan f s
  | some (.list p _) => placeSpan f p
  | some (.map p _) => placeSpan f p
  | some (.empty p) => placeSpan f p
  | _ => Span.fileStart f.id

/-! ## Problems -/

/-- What can be wrong with a document. -/
inductive DocumentProblem where
  /-- The file is not YAML. -/
  | malformed (text : String)
  /-- Something has the wrong shape. -/
  | shape (text : String)
  | duplicateKey (key what : String) (first : Span)
  | unknownField (key place : String)
  | emptyName (what : String)
  | notComposed (what name : String)
  | emptyEndpoint (net : String)

def DocumentProblem.at_ (span : Span) : DocumentProblem → Diagnostic
  | malformed text => .error .malformedDocument span ("invalid YAML: " ++ text)
  | shape text => .error .unexpectedShape span text
  | duplicateKey key what first =>
    .error .duplicateKey span ("duplicate key " ++ Text.quoted key ++ " in " ++ what)
      [⟨first, "first defined here"⟩]
  | unknownField key place =>
    .warning .unknownField span ("unknown field " ++ Text.quoted key ++ " in " ++ place)
  | emptyName what => .error .emptyName span (what ++ " name is empty")
  | notComposed what name =>
    .warning .nameNotComposed span
      (what ++ " name " ++ Text.quoted name ++ " is not in Unicode NFC form")
      [⟨span, "normalized spelling is " ++ Text.quoted (Text.composed name)⟩]
  | emptyEndpoint net => .error .invalidEndpoint span ("empty endpoint on net " ++ Text.quoted net)

def reportAt (span : Span) (p : DocumentProblem) : Logged Unit := Logged.report (p.at_ span)

/-! ## Reading nodes -/

/-- A file and its tree. -/
structure Decoder where
  file : SourceFile
  tree : Yaml.Tree

/-- Whether a node stands for nothing. -/
def isNullNode : Option Yaml.Node → Bool
  | none => true
  | some (.scalar s) => s.isNull
  | _ => false

namespace Decoder

/-- The text of a scalar and where it stands. -/
def located (d : Decoder) (s : Yaml.Scalar) : Located := ⟨s.text, scalarSpan d.file s⟩

/-- Goes through the members of a map.  Each key is given with its value; a key that
is not a scalar or has come before is reported and passed over.  `seen` holds the
keys so far. -/
def foldMembers {β : Type} (d : Decoder) (what : String)
    (step : β → Yaml.Scalar → Option Yaml.Node → Logged β) :
    (seen : List Yaml.Scalar) → List (Yaml.Node × Yaml.Node) → β → Logged β
  | _, [], b => pure b
  | seen, (key, value) :: rest, b => do
    match d.tree.resolve key with
    | some (.scalar s) =>
      match seen.find? fun k => k.text == s.text with
      | some first =>
        reportAt (scalarSpan d.file s) (.duplicateKey s.text what (scalarSpan d.file first))
        foldMembers d what step seen rest b
      | none => do
        let b ← step b s (d.tree.resolve value)
        foldMembers d what step (s :: seen) rest b
    | other =>
      reportAt (nodeSpan d.file other) (.shape ("keys of " ++ what ++ " must be strings"))
      foldMembers d what step seen rest b

/-- Goes through a map.  A node that stands for nothing is an empty map. -/
def foldMap {β : Type} (d : Decoder) (n : Option Yaml.Node) (what : String) (init : β)
    (step : β → Yaml.Scalar → Option Yaml.Node → Logged β) : Logged β := do
  if isNullNode n then return init
  else
    match n with
    | some (.map _ members) => d.foldMembers what step [] members init
    | _ =>
      reportAt (nodeSpan d.file n) (.shape (what ++ " must be a mapping"))
      return init

/-- The text of a node that has to be a scalar and stand for something. -/
def scalar (d : Decoder) (n : Option Yaml.Node) (what : String) : Logged (Option Located) := do
  match isNullNode n, n with
  | false, some (.scalar s) => return some (d.located s)
  | _, _ =>
    reportAt (nodeSpan d.file n) (.shape (what ++ " must be a string"))
    return none

/-- The texts of the items of a list. -/
def scalars (d : Decoder) (what : String) : List Yaml.Node → Logged (List Located)
  | [] => pure []
  | n :: rest => do
    let first ← d.scalar (d.tree.resolve n) ("item of " ++ what)
    let more ← scalars d what rest
    return first.toList ++ more

/-- The texts of a list, or of a scalar that stands for a list of one. -/
def scalarList (d : Decoder) (n : Option Yaml.Node) (what : String) : Logged (List Located) := do
  if isNullNode n then return []
  else
    match n with
    | some (.scalar s) => return [d.located s]
    | some (.list _ items) => d.scalars what items
    | _ =>
      reportAt (nodeSpan d.file n) (.shape (what ++ " must be a list of strings"))
      return []

/-- The members of a map whose values are scalars. -/
def entries (d : Decoder) (n : Option Yaml.Node) (what : String) : Logged (List Entry) :=
  d.foldMap n what [] fun entries key value => do
    match ← d.scalar value (what ++ " " ++ Text.quoted key.text) with
    | some v => return entries ++ [⟨d.located key, v⟩]
    | none => return entries

/-- Checks a name: it must not be blank and should be composed. -/
def checkName (d : Decoder) (name : Located) (key : Yaml.Scalar) (what : String) : Logged Bool := do
  if Text.isBlankText name.text then
    reportAt (scalarSpan d.file key) (.emptyName what)
    return false
  else
    if !Text.isComposed name.text then reportAt name.span (.notComposed what name.text)
    return true

/-- Reports a field that has no meaning. -/
def unknownField (d : Decoder) (key : Yaml.Scalar) (place : String) : Logged Unit :=
  reportAt (scalarSpan d.file key) (.unknownField key.text place)

/-- A text without the marker in front of it, if it has that marker. -/
def afterMarker? (marker : Char) (l : Located) : Option Located :=
  match l.text.toList with
  | c :: rest =>
    if c == marker then some ⟨String.ofList rest, l.span.slice 1 l.text.utf8ByteSize⟩ else none
  | [] => none

/-! ## Declarations -/

def device (d : Decoder) (name : Located) (body : Option Yaml.Node) : Logged DeviceDecl :=
  let place := "device " ++ Text.quoted name.text
  d.foldMap body place { name := name } fun dev key value => do
    match key.text with
    | "ports" => return { dev with ports := ← d.scalarList value "ports" }
    | "parameters" => return { dev with parameters := ← d.entries value "parameters" }
    | "backends" =>
      d.foldMap value "backends" dev fun dev backend fields => do
        let fields ← d.entries fields ("backend " ++ backend.text)
        return { dev with backends := dev.backends ++ [⟨d.located backend, fields⟩] }
    | _ =>
      d.unknownField key place
      return dev

def endpoints (net : String) : List Located → Logged (List EndpointDecl)
  | [] => pure []
  | e :: rest => do
    let decl : EndpointDecl := match afterMarker? '!' e with
      | some bare => ⟨bare, true⟩
      | none => ⟨e, false⟩
    if Text.isBlankText decl.expression.text then
      reportAt e.span (.emptyEndpoint net)
      endpoints net rest
    else return decl :: (← endpoints net rest)

def net (d : Decoder) (key : Yaml.Scalar) (value : Option Yaml.Node) : Logged (Option NetDecl) := do
  let whole := d.located key
  let (name, isPort) := match afterMarker? '$' whole with
    | some bare => (bare, true)
    | none => (whole, false)
  if ← d.checkName name key "net" then
    let exprs ← d.scalarList value ("endpoints of net " ++ Text.quoted key.text)
    return some ⟨name, isPort, ← endpoints key.text exprs⟩
  else return none

/-- Reads the default bindings for the instances of a definition. -/
def defaults (d : Decoder) (ref : Located) (body : Option Yaml.Node) : Logged DefaultDecl :=
  let place := "instance_defaults " ++ Text.quoted ref.text
  d.foldMap body place ⟨ref, []⟩ fun decl key value => do
    if key.text == "bindings" then return { decl with bindings := ← d.entries value "bindings" }
    else
      d.unknownField key place
      return decl

def module (d : Decoder) (name : Located) (body : Option Yaml.Node) : Logged ModuleDecl :=
  let place := "module " ++ Text.quoted name.text
  d.foldMap body place { name := name } fun mod key value => do
    match key.text with
    | "parameters" => return { mod with parameters := ← d.entries value "parameters" }
    | "variables" => return { mod with vars := ← d.entries value "variables" }
    | "patterns" => return { mod with patterns := ← d.entries value "patterns" }
    | "instances" =>
      d.foldMap value "instances" mod fun mod inst token => do
        if ← d.checkName (d.located inst) inst "instance" then
          match ← d.scalar token ("instance " ++ Text.quoted inst.text) with
          | some v => return { mod with instances := mod.instances ++ [⟨d.located inst, v⟩] }
          | none => return mod
        else return mod
    | "nets" =>
      d.foldMap value "nets" mod fun mod key value => do
        match ← d.net key value with
        | some n => return { mod with nets := mod.nets ++ [n] }
        | none => return mod
    | "instance_defaults" =>
      d.foldMap value "instance_defaults" mod fun mod ref body => do
        return { mod with defaults := mod.defaults ++ [← d.defaults (d.located ref) body] }
    | _ =>
      d.unknownField key place
      return mod

/-- Reads a document from the root of its tree. -/
def document (d : Decoder) (empty : Document) : Logged Document :=
  d.foldMap (d.tree.resolve d.tree.root) "document" empty fun doc key value => do
    match key.text with
    | "top" =>
      match ← d.scalar value "top" with
      | some top => return { doc with top := some top }
      | none => return doc
    | "imports" => return { doc with imports := doc.imports ++ (← d.entries value "imports") }
    | "devices" =>
      d.foldMap value "devices" doc fun doc name body => do
        if ← d.checkName (d.located name) name "device" then
          return { doc with devices := doc.devices ++ [← d.device (d.located name) body] }
        else return doc
    | "modules" =>
      d.foldMap value "modules" doc fun doc name body => do
        if ← d.checkName (d.located name) name "module" then
          return { doc with modules := doc.modules ++ [← d.module (d.located name) body] }
        else return doc
    | _ =>
      d.unknownField key "document"
      return doc

end Decoder

/-! ## Files -/

/-- Why the text of a file has no tree: a message, and the line if one is known. -/
structure SyntaxFault where
  /-- The line, counted from one. -/
  line : Option UInt32
  message : String
  deriving DecidableEq, Repr

/-- The fault that an error stands for.  An error without a line keeps the name of
the format in front. -/
def SyntaxFault.ofError (e : Yaml.Error) : SyntaxFault :=
  match e.line with
  | some n => ⟨some (UInt32.ofNat n), e.problem.text⟩
  | none => ⟨none, "yaml: " ++ e.problem.text⟩

/-- The fault that a message stands for.  A message that starts with the name of the
format and a line gives them up. -/
def SyntaxFault.ofMessage (message : String) : SyntaxFault :=
  let whole : SyntaxFault := ⟨none, message⟩
  match message.dropPrefix? "yaml: line " with
  | none => whole
  | some rest =>
    let chars := rest.toString.toList
    let digits := chars.takeWhile Decimal.isDigit
    match digits.isEmpty, chars.dropWhile Decimal.isDigit with
    | false, ':' :: ' ' :: text =>
      if text.contains '\n' then whole
      else ⟨Decimal.readUInt32? digits, String.ofList text⟩
    | _, _ => whole

/-- Where a fault is shown: at the start of its line, or of the file. -/
def SyntaxFault.span (f : SyntaxFault) (file : SourceFile) : Span :=
  match f.line with
  | none => Span.fileStart file.id
  | some line =>
    let start := file.offset ⟨line, 1⟩
    ⟨file.id, start, start⟩

/-- What takes a content to its tree, if it is not empty, or to the fault in it. -/
abbrev TreeParser := Bytes → Except SyntaxFault (Option Yaml.Tree)

/-- The tree of a content that is YAML. -/
def readTree : TreeParser := fun content =>
  match Yaml.read content with
  | .ok tree => .ok tree
  | .error e => .error (SyntaxFault.ofError e)

def Document.ofTree (file : SourceFile) (tree : Except SyntaxFault (Option Yaml.Tree)) :
    Logged Document := do
  let empty : Document := { file := file.id, path := file.path }
  match tree with
  | .error fault =>
    reportAt (fault.span file) (.malformed fault.message)
    return empty
  | .ok none => return empty
  | .ok (some tree) =>
    match tree.root with
    | .empty _ => return empty
    | _ => Decoder.document ⟨file, tree⟩ empty

def Document.decode (file : SourceFile) (parse : TreeParser := readTree) : Logged Document :=
  Document.ofTree file (parse file.content)

end Netlist
