import Netlist.Atomize.Design
import Netlist.Design.Build
import Netlist.Elaborate.Cache
import Netlist.Elaborate.Session
import Netlist.Import.Project
import Netlist.Program.Stored.Json

/-!
# Elaboration

Elaboration takes an entry file to a program in three stages: it loads the files,
builds the design with all references resolved, and atomizes it.  A stage that
reports an error ends the run.  What the stages report goes through a filter for
repeats into a bag, and there is a program only if no error is in the bag at the
end.

A file of the design may be the file that the trace goes to.  It is then read as the
trace stands at that moment.

The run reads a clock for the trace and for the times of the stages.  The clock is
a parameter, and nothing else depends on it.
-/

namespace Netlist

/-- The settings of a run. -/
structure ElaborateOptions where
  libRoots : List String := []
  /-- The library roots that are looked at after those. -/
  envRoots : List String := []
  /-- How many atoms an expression may have; the default if not positive. -/
  maxAtoms : Int := 0
  /-- How many diagnostics are kept; the default if not positive. -/
  maxDiagnostics : Int := 0
  /-- Whether warnings are left out. -/
  ignoreWarnings : Bool := false
  warningsAsErrors : Bool := false
  timings : Bool := false
  /-- The directory of stored results, if they are used. -/
  cache : Option String := none
  /-- Whether the run is called off before it begins. -/
  cancelled : Bool := false

namespace ElaborateOptions

/-- How many diagnostics are kept if nothing sensible is asked for. -/
def defaultMaxDiagnostics : Int := 200

/-- How many diagnostics are kept. -/
def limit (o : ElaborateOptions) : Int :=
  if o.maxDiagnostics ≤ 0 then defaultMaxDiagnostics else o.maxDiagnostics

/-- The library roots in the order in which they are searched. -/
def roots (o : ElaborateOptions) : List String := o.libRoots ++ o.envRoots

end ElaborateOptions

/-- The result of a run. -/
structure Elaboration where
  /-- The program, if no error was reported. -/
  program : Option Program
  /-- The program as it was stored, if a stored result was used and no error was reported. -/
  stored : Option Stored.Program
  bag : Bag
  files : FileSet
  graph : Option ImportGraph
  timings : TimingReport
  /-- Whether a stored result was used. -/
  cacheHit : Bool

namespace Elaboration

/-- The program as JSON.  A stored program is shown as it was stored. -/
def toJson (e : Elaboration) : Option Json :=
  match e.stored with
  | some p => some p.toJson
  | none => e.program.map (·.toJson)

/-- The snapshot of the program.  A stored program keeps bytes that are no text. -/
def snapshot (e : Elaboration) : Option Bytes :=
  match e.stored with
  | some p => some p.arrange.snapshot
  | none => e.program.map (·.snapshot)

end Elaboration

/-- What a run leaves: its result, unless it was called off, the announcements of its
stages, its trace, and the files with what was stored. -/
structure RunOutcome where
  result : Option Elaboration
  events : List StageEvent
  tracer : Trace.Tracer
  tree : FileTree

/-! ## Times among the diagnostics -/

/-- The diagnostic that carries the times of the stages. -/
def timingDiagnostic (report : TimingReport) (cacheHit : Bool) : Diagnostic :=
  let payload := Json.obj
    ([("kind", .str "elaborate")] ++ Json.optBool "cache_hit" cacheHit ++ report.members)
  { severity := .info
    code := .timings
    span := Span.nowhere
    message := .text ("timings (elaborate): total " ++ Binary64.fixed 2 report.total ++ " ms")
    notes := [⟨Span.nowhere, payload.compact⟩] }

/-- Adds a diagnostic that must not be lost: when there is no room the limit is
raised. -/
def Bag.insist (b : Bag) (d : Diagnostic) : Bag :=
  if b.hasRoom then b.add d else (b.add d).merge ((Bag.new 1).add d)

/-! ## Stages -/

/-- What the stages have found out so far. -/
structure Findings where
  files : FileSet
  graph : Option ImportGraph := none
  program : Option Program := none
  stored : Option Stored.Program := none
  sink : Sink

/-- Whether a stored result was used. -/
def Findings.cacheHit (f : Findings) : Bool := f.stored.isSome

/-- The key under which the result for a graph is stored. -/
def cacheKey (graph : ImportGraph) (maxAtoms : Int) : Digest :=
  Digest.combine graph.digest [Digest.salt [maxAtoms]]

def buildGraph (graph : ImportGraph) (alloc : Allocator) : Logged (Option Design × Allocator) :=
  buildDesign ⟨graph.documents, graph.symbols, graph.bindings⟩ alloc

/-- The bag of a run with its warnings treated as the settings say. -/
def settleWarnings (o : ElaborateOptions) (b : Bag) : Bag :=
  let b := if o.warningsAsErrors then b.map Bag.promote else b
  if o.ignoreWarnings then b.filter fun d => d.severity != .warning else b

/-- The result of a run, from what was found. -/
def conclude (o : ElaborateOptions) (f : Findings) (report : Option TimingReport) : Elaboration :=
  let bag := settleWarnings o f.sink.bag
  let bag := match report with
    | some r => bag.insist (timingDiagnostic r f.cacheHit)
    | none => bag
  let bag := bag.sort
  { program := if bag.hasErrors then none else f.program
    stored := if bag.hasErrors then none else f.stored
    bag := bag
    files := f.files
    graph := f.graph
    timings := report.getD {}
    cacheHit := f.cacheHit }

section Run

variable {m : Type → Type} [Monad m] (now : m Int)

/-- Ends a run with what was found. -/
def finishRun (o : ElaborateOptions) (tree : FileTree) (f : Findings) (session : Session) :
    m RunOutcome := do
  let time ← now
  let session :=
    if 0 < f.sink.suppressed then
      session.point .stage "dedup" ("suppressed=" ++ Decimal.ofNat f.sink.suppressed) time
    else session
  let result := conclude o f (session.timer.map (·.report))
  let session := session.finish (← now)
  return ⟨some result, session.events, session.tracer, tree⟩

/-- Builds and atomizes, and stores the program if there is one. -/
def compileGraph (o : ElaborateOptions) (tree : FileTree) (f : Findings) (graph : ImportGraph)
    (alloc : Allocator) (session : Session) : m RunOutcome := do
  let (stage, session) := session.startStage "build" (← now)
  let built := buildGraph graph alloc
  let f := { f with sink := f.sink.reportAll built.log }
  match built.value with
  | (none, _) =>
    let session := session.endStage stage "failed" (← now)
    finishRun now o tree f session
  | (some design, alloc) =>
    let note := "modules=" ++ Decimal.ofNat design.modules.length ++ " exprs=" ++
      Decimal.ofNat design.expressions.size
    let session := session.endStage stage note (← now)
    let (stage, session) := session.startStage "atomize" (← now)
    let atomized := design.atomize alloc o.maxAtoms
    let f := { f with sink := f.sink.reportAll atomized.log }
    match atomized.value with
    | none =>
      let session := session.endStage stage "failed" (← now)
      finishRun now o tree f session
    | some program =>
      let session := session.recordModules (← now) program
      let session :=
        session.endStage stage ("modules=" ++ Decimal.ofNat program.modules.size) (← now)
      let tree := match o.cache with
        | some dir =>
          Cache.store tree dir (cacheKey graph o.maxAtoms) program (built.log ++ atomized.log)
        | none => tree
      finishRun now o tree { f with program := some program } session

/-- Elaborates an entry file. -/
def elaborate (o : ElaborateOptions) (tree : FileTree) (tracer : Trace.Tracer) (entry : String)
    (parse : TreeParser := readTree) : m RunOutcome := do
  let session := Session.start tracer o.timings (← now)
  let (stage, session) := session.startStage "resolve" (← now)
  if o.cancelled then
    let session := (session.endStage stage "cancelled" (← now)).finish (← now)
    return ⟨none, session.events, session.tracer, tree⟩
  let files : FileSet := { workDir := tree.workDir, base := Import.projectRoot tree entry }
  let time ← now
  let read : Import.Reading :=
    { content := fun met path => ((session.recordVisits time [] met).tracer.view tree).read path
      parse := parse }
  let found := Import.resolveWith read tree o.roots files {} entry
  let session := session.recordVisits time [] found.value.visits
  let f : Findings :=
    { files := found.value.files
      graph := found.value.graph
      sink := Sink.reportAll { bag := Bag.new o.limit } found.log }
  match found.value.graph with
  | none =>
    let session := session.endStage stage "failed" (← now)
    finishRun now o tree f session
  | some graph =>
    if graph.broken then
      let session := session.endStage stage "failed" (← now)
      finishRun now o tree f session
    else
      let session := session.endStage stage ("files=" ++ Decimal.ofNat graph.nodes.length) (← now)
      match o.cache.bind fun dir => Cache.load tree dir (cacheKey graph o.maxAtoms) with
      | some (stored, diagnostics) =>
        let session := session.point .stage "cache" "hit" (← now)
        let sink := f.sink.reportAll diagnostics
        let f := { f with program := some stored.toProgram, stored := some stored, sink := sink }
        finishRun now o tree f session
      | none => compileGraph now o tree f graph found.value.alloc session

end Run

end Netlist
