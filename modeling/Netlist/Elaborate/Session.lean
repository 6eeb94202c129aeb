import Netlist.Diagnostic.Bag
import Netlist.Import.Graph
import Netlist.Program.Basic
import Netlist.Timer
import Netlist.Trace.Tracer

/-!
# The course of a run

A session follows a run through its stages.  Each stage is a step of the trace, is
timed if times are wanted, and is announced when it begins and ends.
-/

namespace Netlist

/-- An announcement of a stage. -/
inductive StageEvent where
  | started (name : String)
  /-- The stage ended with a remark. -/
  | ended (name note : String)
  deriving DecidableEq, Repr

/-- The course of a run so far. -/
structure Session where
  tracer : Trace.Tracer
  /-- The step of the trace that is the whole run. -/
  root : Trace.Span
  /-- The times of the stages, if they are wanted. -/
  timer : Option Timer
  /-- The announcements, in order. -/
  events : List StageEvent := []

/-- A stage under way. -/
structure OpenStage where
  name : String
  span : Trace.Span
  index : Nat

namespace Session

/-- Begins a run. -/
def start (tracer : Trace.Tracer) (timed : Bool) (now : Int) : Session :=
  let (root, tracer) := tracer.start now .run "elaborate" {}
  { tracer := tracer, root := root, timer := if timed then some {} else none }

def startStage (s : Session) (name : String) (now : Int) : OpenStage × Session :=
  let (span, tracer) := s.tracer.start now .stage name s.root.place
  let index := (s.timer.map (·.stages.length)).getD 0
  let timer := s.timer.map fun t => (t.start now name).2
  (⟨name, span, index⟩,
    { s with tracer := tracer, timer := timer, events := s.events ++ [.started name] })

def endStage (s : Session) (stage : OpenStage) (note : String) (now : Int) : Session :=
  { s with
    tracer := s.tracer.finish now stage.span note
    timer := s.timer.map (·.finish now stage.index note)
    events := s.events ++ [.ended stage.name note] }

/-- Records an instant of the run. -/
def point (s : Session) (scope : Trace.Scope) (name detail : String) (now : Int) : Session :=
  { s with tracer := s.tracer.point now scope name detail s.root.place }

/-- Records the files that were visited.  `spans` holds the steps of the files that
were entered and not yet left, innermost first. -/
def recordVisits (now : Int) :
    (spans : List Trace.Span) → Session → List Import.Visit → Session
  | _, s, [] => s
  | spans, s, .enter path :: rest =>
    let (span, tracer) := s.tracer.start now .file ("file:" ++ path) s.root.place
    recordVisits now (span :: spans) { s with tracer := tracer } rest
  | span :: spans, s, .leave imports :: rest =>
    let (span, tracer) := s.tracer.attach span "imports" (Decimal.ofNat imports)
    recordVisits now spans { s with tracer := tracer.finish now span "" } rest
  | [], s, .leave _ :: rest => recordVisits now [] s rest

/-- Records the modules of a program, in the order in which they are written. -/
def recordModules (now : Int) (s : Session) (p : Program) : Session :=
  (p.emitOrder.getD []).foldl
    (fun s id =>
      match p.modules.get? id with
      | none => s
      | some m =>
        let detail := "nets=" ++ Decimal.ofNat m.nets.size ++ " instances=" ++
          Decimal.ofNat m.instances.size ++ " endpoints=" ++ Decimal.ofNat m.endpoints.size
        s.point .module ("module:" ++ m.name) detail now) s

/-- Ends a run. -/
def finish (s : Session) (now : Int) : Session :=
  { s with tracer := s.tracer.finish now s.root "" }

end Session

end Netlist
