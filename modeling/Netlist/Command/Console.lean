import Netlist.BuildInfo
import Netlist.Command.Error
import Netlist.Trace.Tracer

/-!
# What commands work with

A command reads its settings, works on a tree of files and prints on two channels.  It
fails with an error, or silently when what is wrong has been printed.  The trace of a
run goes to the second channel or to a file.
-/

namespace Netlist.Command

/-- What a command knows about the place where it runs. -/
structure Environment where
  /-- The library roots of the environment, as one text. -/
  libraryPath : String := ""
  /-- The directory of stored results. -/
  cacheDir : String
  build : BuildInfo
  /-- Whether the first channel is a terminal. -/
  outputIsTerminal : Bool := false
  /-- Whether the second channel is a terminal. -/
  reportIsTerminal : Bool := false

/-- The files and what has been printed. -/
structure Console where
  tree : FileTree
  output : Bytes := []
  report : Bytes := []

/-- How a command fails. -/
inductive Failure where
  /-- What is wrong has been printed. -/
  | reported
  | error (e : CommandError)

abbrev Step (m : Type → Type) := ExceptT Failure (StateT Console m)

/-- The settings and arguments of a command. -/
structure Call where
  /-- The place where it runs. -/
  env : Environment
  /-- The words of the command line. -/
  words : List String
  /-- The values of the flags. -/
  given : Given
  args : List String

section Steps

variable {m : Type → Type} [Monad m]

def Step.fail {α : Type} (e : CommandError) : Step m α := throw (.error e)

def Step.ofExcept {ε α : Type} (wrap : ε → CommandError) (r : Except ε α) : Step m α :=
  match r with
  | .ok a => pure a
  | .error e => Step.fail (wrap e)

/-- Prints bytes on the first channel. -/
def printBytes (bytes : Bytes) : Step m Unit :=
  modify fun c => { c with output := c.output ++ bytes }

/-- Prints a text on the first channel. -/
def print (text : String) : Step m Unit := printBytes (Bytes.ofString text)

/-- Prints bytes on the second channel. -/
def reportBytes (bytes : Bytes) : Step m Unit :=
  modify fun c => { c with report := c.report ++ bytes }

/-- Puts other files in place. -/
def setTree (t : FileTree) : Step m Unit := modify fun c => { c with tree := t }

def createFile (wrap : FileError → CommandError) (path : String) (content : Bytes) :
    Step m Unit := do
  setTree (← Step.ofExcept wrap ((← get).tree.write path content))

/-- Whether to print in colour, when the channel is or is not a terminal. -/
def useColor (call : Call) (isTerminal : Bool) : Step m Bool :=
  match call.given.text "color" "auto" with
  | "on" => pure true
  | "off" => pure false
  | "auto" => pure isTerminal
  | word => Step.fail (.badColor word)

/-- Makes the directory of stored results. -/
def openCache (call : Call) : Step m String := do
  setTree (← Step.ofExcept .noCache ((← get).tree.makeDirectory call.env.cacheDir))
  return call.env.cacheDir

/-! ## The trace -/

/-- Starts the trace that the flags ask for.  Naming a file without a level asks for the
stages. -/
def startTrace (call : Call) (now : Int) : Step m Trace.Tracer := do
  let path := call.given.text "trace" ""
  let setting {α : Type} [DecidableEq α] (flag default : String) (n : Naming α) : Step m α :=
    Step.ofExcept (.badTraceSetting flag) (n.parse (call.given.text flag default))
  let level ← setting "trace-level" "off" Trace.Level.naming
  let level := if level == .off && !path.isEmpty then Trace.Level.stage else level
  if level == .off then return Trace.Tracer.none
  let storage ← setting "trace-mode" "stream" Trace.Storage.naming
  let format ← setting "trace-format" "auto" Trace.Format.naming
  let capacity := call.given.number "trace-ring-size" 4096
  let tracer ← Step.ofExcept .noTrace
    (Trace.Tracer.new level storage capacity (format.resolve path) now)
  if path.isEmpty || path == "-" || tracer.stream.isNone then return tracer
  createFile .noTraceFile path []
  return tracer.toFile path

/-- Hands out what a tracer has written. -/
def deliverTrace (t : Trace.Tracer) : Step m Unit :=
  match t.stream with
  | none => pure ()
  | some s =>
    match s.file with
    | none => reportBytes (Bytes.ofString s.text)
    | some path => createFile .noTraceFile path (Bytes.ofString s.text)

end Steps

end Netlist.Command
