import Netlist.Command.Choice
import Netlist.Command.Design
import Netlist.Command.Expand

/-!
# The command line

The words of a command line name a command and give it flags and arguments.  Flags are
read first, then a wish for help or for the version is granted, then the arguments are
counted, then the trace starts, and then the command runs.
-/

namespace Netlist.Command

/-- The commands. -/
inductive Verb where
  /-- Writes the program of a design. -/
  | elaborate
  /-- Reports what is wrong with a design. -/
  | diag
  | expand
  | clean
  /-- Tells about the build. -/
  | version
  | help
  | completion
  deriving DecidableEq, Repr

namespace Verb

def names : List (String × Verb) :=
  [("elaborate", elaborate), ("diag", diag), ("expand", expand), ("clean", clean),
   ("version", version), ("help", help), ("completion", completion)]

def flags : Verb → List Flag
  | elaborate => elaborateFlags
  | diag => diagFlags
  | expand => expandFlags
  | version => [⟨"hash", .switch, none⟩, ⟨"date", .switch, none⟩, ⟨"full", .switch, none⟩,
      ⟨"format", .text, none⟩]
  | clean | help | completion => []

end Verb

def globalFlags : List Flag :=
  [⟨"color", .text, none⟩, ⟨"timings", .switch, none⟩, ⟨"max-diagnostics", .number, none⟩,
   ⟨"max-atoms", .number, none⟩, ⟨"jobs", .number, none⟩, ⟨"lib", .texts, none⟩,
   ⟨"trace", .text, none⟩, ⟨"trace-level", .text, none⟩, ⟨"trace-mode", .text, none⟩,
   ⟨"trace-format", .text, none⟩, ⟨"trace-ring-size", .number, none⟩]

def helpFlag : Flag := ⟨"help", .switch, some 'h'⟩

def versionFlag : Flag := ⟨"version", .switch, some 'v'⟩

/-- A short explanation. -/
def usage : String :=
  "Usage:\n  netc [command] [flags] [arguments]\n\nCommands:\n" ++
  "  elaborate <entry.yaml>  elaborate a design and write the atomized netlist\n" ++
  "  diag <entry.yaml>       check a design and report diagnostics\n" ++
  "  expand <expression>     expand a single pattern expression\n" ++
  "  clean                   remove the elaboration disk cache\n" ++
  "  version                 show build information\n"

/-- The command that some words name, and the words without its name.  Words without a
name are for the tool itself.  For an unknown name the error has the close ones, in the
order of the alphabet. -/
def chooseVerb (words : List String) : Except CommandError (Option Verb × List String) :=
  match operands globalFlags words with
  | [] => .ok (none, words)
  | name :: _ =>
    match Verb.names.lookup name with
    | some verb => .ok (some verb, dropOperand globalFlags name words)
    | none =>
      let names := (Verb.names.filter (·.2 != .help)).map (·.1)
      .error (.unknownCommand name
        ((names.filter (isClose name)).mergeSort fun a b => !(b < a)))

section Steps

variable {m : Type → Type} [Monad m] (now : m Int)

def oneArgument (call : Call) : Step m String :=
  match call.args with
  | [arg] => pure arg
  | args => Step.fail (.wrongArguments 1 args.length)

def noArguments (call : Call) (command : String) : Step m Unit :=
  match call.args with
  | [] => pure ()
  | arg :: _ => Step.fail (.unexpectedArgument arg command)

def runClean (call : Call) : Step m Unit := do
  let dir ← openCache call
  let (removed, tree) := Cache.clear (← get).tree dir
  setTree tree
  print ("removed " ++ Decimal.ofNat removed ++ " cached result(s) from " ++ dir ++ "\n")

def runVersion (call : Call) : Step m Unit := do
  let g := call.given
  let full := g.switch "full"
  let query : BuildQuery := ⟨g.switch "hash" || full, g.switch "date" || full⟩
  let format := g.text "format" "pretty"
  match Text.lower format with
  | "pretty" =>
    let color ← useColor call call.env.outputIsTerminal
    print (call.env.build.render query (color && call.env.outputIsTerminal))
  | "json" => print (call.env.build.toJson query).document
  | _ => Step.fail (.badFormat "format" format "pretty or json")

/-- Runs a command whose flags have been read. -/
def runVerb (call : Call) (verb : Verb) : Step m Unit := do
  match verb with
  | .elaborate =>
    let entry ← oneArgument call
    let tracer ← startTrace call (← (now : Step m Int))
    runElaborate now call tracer entry
  | .diag =>
    let entry ← oneArgument call
    let tracer ← startTrace call (← (now : Step m Int))
    runDiag now call tracer entry
  | .expand =>
    let raw ← oneArgument call
    let _ ← startTrace call (← (now : Step m Int))
    runExpand call raw
  | .clean =>
    noArguments call "clean"
    let _ ← startTrace call (← (now : Step m Int))
    runClean call
  | .version =>
    noArguments call "version"
    let _ ← startTrace call (← (now : Step m Int))
    runVersion call
  | .help | .completion => print usage

/-- Runs a command line. -/
def runWords (env : Environment) (words : List String) : Step m Unit := do
  let (verb, rest) ← Step.ofExcept id (chooseVerb words)
  let own := match verb with
    | some verb => verb.flags
    | none => [versionFlag]
  let (given, args) ← Step.ofExcept .badFlag (readWords (helpFlag :: own ++ globalFlags) {} rest)
  let call : Call := ⟨env, words, given, args⟩
  if given.switch "help" then print usage
  else
    match verb with
    | some verb => runVerb now call verb
    | none =>
      if given.switch "version" then print ("netc version " ++ env.build.version ++ "\n")
      else print usage

/-- What a command line leaves. -/
structure Outcome where
  succeeded : Bool
  /-- The files and what was printed. -/
  console : Console

/-- Runs a command line on a tree of files. -/
def run (env : Environment) (tree : FileTree) (words : List String) : m Outcome := do
  let (result, console) ← (runWords now env words).run.run { tree := tree }
  match result with
  | .ok () => return ⟨true, console⟩
  | .error .reported => return ⟨false, console⟩
  | .error (.error e) =>
    let text := "Error: " ++ e.message ++ "\n" ++ e.hint
    return ⟨false, { console with report := console.report ++ Bytes.ofString text }⟩

end Steps

end Netlist.Command
