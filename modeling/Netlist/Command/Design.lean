import Netlist.Command.Console
import Netlist.Elaborate.Run
import Netlist.Report.Machine
import Netlist.Summary

/-!
# Commands on a design

`elaborate` writes the program of a design, and `diag` reports what is wrong with it.
The settings come from flags and from the manifest above the entry file; a limit that is
given as a flag wins over the one in the manifest.
-/

namespace Netlist.Command

/-- The flags of the commands that elaborate. -/
def designFlags : List Flag :=
  [⟨"no-warnings", .switch, none⟩, ⟨"warnings-as-errors", .switch, none⟩,
    ⟨"disk-cache", .switch, none⟩]

def elaborateFlags : List Flag :=
  [⟨"emit", .text, none⟩, ⟨"output", .text, some 'o'⟩, ⟨"stats", .switch, none⟩,
   ⟨"with-notes", .switch, none⟩] ++ designFlags

def diagFlags : List Flag :=
  [⟨"format", .text, none⟩, ⟨"with-notes", .switch, none⟩, ⟨"fullpath", .switch, none⟩,
   ⟨"path-mode", .text, none⟩, ⟨"min-severity", .text, none⟩] ++ designFlags

/-- How many lines a snippet has on each side. -/
def contextLines : Int := 2

/-- How wide a summary may be. -/
def summaryWidth : Int := 80

def limitFrom (g : Given) (flag : String) (default manifest : Int) : Int :=
  if !g.has flag && 0 < manifest then manifest else g.number flag default

def runOptions (call : Call) (manifest : Option Manifest) (cache : Option String) :
    ElaborateOptions :=
  let g := call.given
  { libRoots := g.texts "lib" ++ (manifest.map (·.absoluteRoots)).getD []
    envRoots := Import.searchPathRoots call.env.libraryPath
    maxAtoms := limitFrom g "max-atoms" 0 ((manifest.map (·.maxAtoms)).getD 0)
    maxDiagnostics := limitFrom g "max-diagnostics" 200 ((manifest.map (·.maxDiagnostics)).getD 0)
    ignoreWarnings := g.switch "no-warnings"
    warningsAsErrors := g.switch "warnings-as-errors"
    timings := g.switch "timings"
    cache := cache }

section Steps

variable {m : Type → Type} [Monad m] (now : m Int)

/-- Elaborates an entry file. -/
def elaborateEntry (call : Call) (tracer : Trace.Tracer) (entry : String) : Step m Elaboration := do
  let _ ← Step.ofExcept (.noEntry entry) ((← get).tree.stat entry)
  let manifest ← Step.ofExcept .badManifest (Manifest.find (← get).tree (Path.dir entry))
  let cache ← if call.given.switch "disk-cache" then some <$> openCache call else pure none
  let run ← elaborate (now : Step m Int) (runOptions call manifest cache) (← get).tree tracer entry
  setTree run.tree
  deliverTrace run.tracer
  match run.result with
  | some e => return e
  | none => Step.fail .cancelled

/-- How `elaborate` writes a program. -/
inductive Emit where
  | json
  | snapshot
  | nothing
  deriving DecidableEq, Repr

/-- The way of writing that a word stands for. -/
def Emit.parse (word : String) : Except CommandError Emit :=
  match Text.lower word with
  | "json" => .ok .json
  | "msgpack" => .ok .snapshot
  | "none" => .ok .nothing
  | word => .error (.badFormat "emit format" word "json, msgpack or none")

/-- The bytes of the program of a run. -/
def Emit.bytes (e : Elaboration) : Emit → Bytes
  | json => ((e.toJson).map fun v => Bytes.ofString v.document).getD []
  | snapshot => e.snapshot.getD []
  | nothing => []

/-- Whether a path stands for the first channel. -/
def isChannel (path : String) : Bool := path == "-" || path.isEmpty

/-- Writes the program of a run to a file or to the first channel. -/
def writeProgram (path : String) (emit : Emit) (e : Elaboration) : Step m Unit :=
  if emit == .nothing then pure ()
  else if isChannel path then printBytes (emit.bytes e)
  else createFile (.noOutput path) path (emit.bytes e)

def runElaborate (call : Call) (tracer : Trace.Tracer) (entry : String) : Step m Unit := do
  let g := call.given
  let emit ← Step.ofExcept id (Emit.parse (g.text "emit" "json"))
  let path := g.text "output" "-"
  if emit == .snapshot && path == "-" && call.env.outputIsTerminal then Step.fail .binaryToTerminal
  let e ← elaborateEntry now call tracer entry
  let color ← useColor call call.env.reportIsTerminal
  reportBytes (Report.pretty e.files
    { color := color, context := contextLines, notes := g.switch "with-notes" } e.bag)
  match e.program with
  | none => throw .reported
  | some p =>
    writeProgram path emit e
    if g.switch "stats" then
      let summary := Summary.of p e.files.size e.cacheHit e.timings
      reportBytes (Bytes.ofString (summary.render summaryWidth))

/-- The form of a report. -/
inductive ReportForm where
  | pretty
  /-- One line for each diagnostic. -/
  | short
  | json
  | sarif
  deriving DecidableEq, Repr

def ReportForm.parse (word : String) : Except CommandError ReportForm :=
  match Text.lower word with
  | "pretty" => .ok .pretty
  | "short" => .ok .short
  | "json" => .ok .json
  | "sarif" => .ok .sarif
  | word => .error (.badFormat "format" word "pretty, short, json or sarif")

def pathMode (g : Given) : Except CommandError PathMode :=
  let word := g.text "path-mode" "auto"
  match PathMode.parse? word with
  | none => .error (.badPathMode word)
  | some mode => .ok (if g.switch "fullpath" then .absolute else mode)

def printReport (call : Call) (form : ReportForm) (mode : PathMode) (files : FileSet) (b : Bag) :
    Step m Unit := do
  let notes := call.given.switch "with-notes"
  match form with
  | .pretty =>
    let color ← useColor call call.env.outputIsTerminal
    printBytes (Report.pretty files
      { color := color, context := contextLines, pathMode := mode, notes := notes } b)
  | .short => print (Report.short files mode b)
  | .json =>
    print
      (Report.reportJson files { positions := true, pathMode := mode, notes := notes } b).document
  | .sarif =>
    let run : Report.ToolRun := ⟨"netc", call.env.build.version, "netc" :: call.words⟩
    print (Report.sarifLog files run b).document

def runDiag (call : Call) (tracer : Trace.Tracer) (entry : String) : Step m Unit := do
  let g := call.given
  let form ← Step.ofExcept id (ReportForm.parse (g.text "format" "pretty"))
  let mode ← Step.ofExcept id (pathMode g)
  let least ← Step.ofExcept .badSeverity
    (Severity.parse (Text.lower (g.text "min-severity" "info")))
  let e ← elaborateEntry now call tracer entry
  let bag := e.bag.filter fun d => least.rank ≤ d.severity.rank
  printReport call form mode e.files bag
  if bag.hasErrors then throw .reported

end Steps

end Netlist.Command
