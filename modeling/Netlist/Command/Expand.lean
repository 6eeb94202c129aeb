import Netlist.Command.Console
import Netlist.Pattern.PartCodec
import Netlist.Pattern.Render
import Netlist.Report.Pretty

/-!
# The command that expands one expression

Named patterns are given as flags.  The expression and every definition get a file in
memory, so that a report can point into them.
-/

namespace Netlist.Command

def expandFlags : List Flag :=
  [⟨"named", .texts, none⟩, ⟨"no-splice", .switch, none⟩, ⟨"compact", .switch, none⟩,
   ⟨"format", .text, none⟩]

/-! ## Named patterns -/

/-- The name and the definition in a text. -/
def splitNamed (value : String) : Except CommandError (String × String) :=
  let cs := value.toList
  let name := Text.trim (String.ofList (cs.takeWhile (· != '=')))
  match cs.dropWhile (· != '=') with
  | [] => .error (.badNamed value)
  | _ :: definition =>
    if name.isEmpty then .error (.badNamed value)
    else .ok (name, Text.trim (String.ofList definition))

/-- Adds the named patterns that some texts define. -/
def addNamed : (named : List (String × String)) → List String →
    Except CommandError (List (String × String))
  | named, [] => .ok named
  | named, value :: rest =>
    match splitNamed value with
    | .error e => .error e
    | .ok (name, definition) =>
      if (named.lookup name).isSome then .error (.namedTwice name)
      else addNamed (named ++ [(name, definition)]) rest

/-- The named patterns that some texts define. -/
def parseNamed (values : List String) : Except CommandError (List (String × String)) :=
  addNamed [] values

/-! ## Expansion -/

/-- How many diagnostics are kept. -/
def expandLimit : Int := 100

/-- What expanding gives. -/
structure Expanding where
  /-- The expansion, if there was no error. -/
  expansion : Option Pattern.Expansion
  files : FileSet
  sink : Sink

/-- Adds a file in memory and gives the span of a text in it. -/
def addText (fs : FileSet) (path text : String) : Span × FileSet :=
  let (id, fs) := fs.add path (Bytes.ofString text) .inMemory
  (⟨id, 0, Span.offsetOf text.utf8ByteSize⟩, fs)

def checkNamed : FileSet → Sink → List (String × String) → Bool × FileSet × Sink
  | fs, sink, [] => (true, fs, sink)
  | fs, sink, (name, definition) :: rest =>
    let (span, fs) := addText fs ("--named " ++ name) definition
    let checked := Pattern.validateNamed name definition span
    let (valid, fs, sink) := checkNamed fs (sink.reportAll checked.log) rest
    (checked.value && valid, fs, sink)

/-- Expands an expression if the named patterns are valid. -/
def expandExpression (workDir raw : String) (o : Pattern.Options) : Expanding :=
  let named := o.named.mergeSort fun a b => !(b.1 < a.1)
  let (valid, fs, sink) := checkNamed { workDir := workDir } { bag := Bag.new expandLimit } named
  let (span, fs) := addText fs "<expr>" raw
  if !valid then ⟨none, fs, sink⟩
  else
    let r := Pattern.expand { o with span := span } raw
    let sink := sink.reportAll r.log
    ⟨if sink.bag.hasErrors then none else r.value, fs, sink⟩

def atomJson (a : Pattern.Atom) : Json :=
  .obj ([("literal", .str a.literal), ("base_name", .str a.base), ("segment", .nat a.segment)] ++
    Json.optArr "parts" (a.parts.map Part.toJson))

def axisJson (a : Pattern.Axis) : Json :=
  .obj (Json.optStr "id" a.name ++ [("length", .nat a.length)])

def expansionJson (e : Pattern.Expansion) : Json :=
  .obj ([("expr", .str e.raw), ("count", .nat e.length), ("spliced", .bool e.isSpliced),
    ("atoms", .arr (e.atoms.map atomJson))] ++ Json.optArr "axes" (e.axes.map axisJson))

def expansionText (compact : Bool) (e : Pattern.Expansion) : String :=
  if compact then Pattern.render e.atoms ++ "\n"
  else String.join (e.literals.map (· ++ "\n"))

def runExpand {m : Type → Type} [Monad m] (call : Call) (raw : String) : Step m Unit := do
  let g := call.given
  let format := g.text "format" "text"
  if format != "text" && format != "json" then Step.fail (.badFormat "format" format "text or json")
  let named ← Step.ofExcept id (parseNamed (g.texts "named"))
  let r := expandExpression (← get).tree.workDir raw
    { maxAtoms := g.number "max-atoms" 0, noSplice := g.switch "no-splice", named := named }
  let color ← useColor call call.env.reportIsTerminal
  reportBytes (Report.pretty r.files { color := color } r.sink.bag)
  match r.expansion with
  | none => throw .reported
  | some e =>
    print (if format == "json" then (expansionJson e).document
      else expansionText (g.switch "compact") e)

end Netlist.Command
