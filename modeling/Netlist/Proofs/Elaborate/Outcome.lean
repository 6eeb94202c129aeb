import Mathlib
import Netlist.Elaborate.Run

/-!
# What a run leaves

A run follows its stages with a trace and with times.  Without them, its result is a
function of the files and the settings: `findings` says what the stages find out, and
`filesAfter` what is stored.  `satisfiesM_elaborate` says that a run gives just that,
whatever the clock shows.
-/

namespace Netlist

/-! ## Without trace and times -/

/-- What building and atomizing give for a graph. -/
def compile (graph : ImportGraph) (alloc : Allocator) (maxAtoms : Int) : Logged (Option Program) :=
  let built := buildGraph graph alloc
  match built.value with
  | (none, _) => ⟨none, built.log⟩
  | (some design, alloc) =>
    let atomized := design.atomize alloc maxAtoms
    ⟨atomized.value, built.log ++ atomized.log⟩

section Compile

variable {graph : ImportGraph} {alloc alloc' : Allocator} {design : Design} {maxAtoms : Int}

theorem compile_of_no_design (h : (buildGraph graph alloc).value = (none, alloc')) :
    compile graph alloc maxAtoms = ⟨none, (buildGraph graph alloc).log⟩ := by
  simp only [compile, h]

theorem compile_of_design (h : (buildGraph graph alloc).value = (some design, alloc')) :
    compile graph alloc maxAtoms =
      ⟨(design.atomize alloc' maxAtoms).value,
        (buildGraph graph alloc).log ++ (design.atomize alloc' maxAtoms).log⟩ := by
  simp only [compile, h]

end Compile

/-- What loading the files of an entry gives. -/
def loadFiles (read : Import.Reading) (o : ElaborateOptions) (tree : FileTree) (entry : String) :
    Logged Import.Resolution :=
  let files : FileSet := { workDir := tree.workDir, base := Import.projectRoot tree entry }
  Import.resolveWith read tree o.roots files {} entry

/-- The stored result for a graph. -/
def storedFor (o : ElaborateOptions) (tree : FileTree) (graph : ImportGraph) :
    Option (Stored.Program × List Diagnostic) :=
  o.cache.bind fun dir => Cache.load tree dir (cacheKey graph o.maxAtoms)

/-- What the stages find out for loaded files. -/
def findingsFor (o : ElaborateOptions) (tree : FileTree) (found : Logged Import.Resolution) :
    Findings :=
  let f : Findings :=
    { files := found.value.files
      graph := found.value.graph
      sink := Sink.reportAll { bag := Bag.new o.limit } found.log }
  match found.value.graph with
  | none => f
  | some graph =>
    if graph.broken then f
    else
      match storedFor o tree graph with
      | some (stored, diagnostics) =>
        { f with
          program := some stored.toProgram
          stored := some stored
          sink := f.sink.reportAll diagnostics }
      | none =>
        let compiled := compile graph found.value.alloc o.maxAtoms
        { f with program := compiled.value, sink := f.sink.reportAll compiled.log }

/-- The files once the result for loaded files is stored. -/
def filesAfter (o : ElaborateOptions) (tree : FileTree) (found : Logged Import.Resolution) :
    FileTree :=
  match found.value.graph with
  | none => tree
  | some graph =>
    if graph.broken || (storedFor o tree graph).isSome then tree
    else
      let compiled := compile graph found.value.alloc o.maxAtoms
      match compiled.value, o.cache with
      | some program, some dir =>
        Cache.store tree dir (cacheKey graph o.maxAtoms) program compiled.log
      | _, _ => tree

/-- How a run reads files that looked at the clock three times before it loads them.  The
times matter only where the trace goes to a file that is read. -/
def readingAt (o : ElaborateOptions) (tree : FileTree) (tracer : Trace.Tracer)
    (t₀ t₁ t₂ : Int) (parse : TreeParser := readTree) : Import.Reading where
  content := fun met path =>
    let session := ((Session.start tracer o.timings t₀).startStage "resolve" t₁).2
    ((session.recordVisits t₂ [] met).tracer.view tree).read path
  parse := parse

/-! ## Times -/

namespace Session

@[simp] theorem isSome_timer_start (tracer : Trace.Tracer) (timed : Bool) (now : Int) :
    (Session.start tracer timed now).timer.isSome = timed := by
  cases timed <;> rfl

@[simp] theorem isSome_timer_startStage (s : Session) (name : String) (now : Int) :
    (s.startStage name now).2.timer.isSome = s.timer.isSome :=
  Option.isSome_map

@[simp] theorem isSome_timer_endStage (s : Session) (stage : OpenStage) (note : String)
    (now : Int) :
    (s.endStage stage note now).timer.isSome = s.timer.isSome :=
  Option.isSome_map

@[simp] theorem timer_point (s : Session) (scope : Trace.Scope) (name detail : String) (now : Int) :
    (s.point scope name detail now).timer = s.timer := rfl

@[simp] theorem timer_recordVisits (now : Int) : ∀ (visits : List Import.Visit)
    (spans : List Trace.Span) (s : Session), (s.recordVisits now spans visits).timer = s.timer
  | [], _, _ => by rw [recordVisits]
  | .enter _ :: rest, _, _ => timer_recordVisits now rest _ _
  | .leave _ :: rest, [], _ => timer_recordVisits now rest _ _
  | .leave _ :: rest, _ :: _, _ => timer_recordVisits now rest _ _

@[simp] theorem timer_recordModules (now : Int) (s : Session) (p : Program) :
    (s.recordModules now p).timer = s.timer := by
  unfold recordModules
  generalize p.emitOrder.getD [] = ids
  induction ids generalizing s with
  | nil => rfl
  | cons id ids ih =>
      rw [List.foldl_cons, ih]
      split <;> rfl

end Session

/-! ## Runs -/

section Run

variable {m : Type → Type} [Monad m] [LawfulMonad m] (now : m Int)

theorem satisfiesM_bind {α β : Type} {x : m α} {f : α → m β} {q : β → Prop}
    (h : ∀ a, SatisfiesM q (f a)) : SatisfiesM q (x >>= f) :=
  SatisfiesM.bind_pre (.of_true h)

/-- An outcome with a result for given findings, with times if they are wanted, and with given
files. -/
def RunOutcome.Gives (o : ElaborateOptions) (f : Findings) (tree : FileTree) (out : RunOutcome) :
    Prop :=
  (∃ report : { r : Option TimingReport // r.isSome = o.timings },
    out.result = some (conclude o f report)) ∧ out.tree = tree

theorem satisfiesM_finishRun {o : ElaborateOptions} (tree : FileTree) (f : Findings)
    {session : Session} (hs : session.timer.isSome = o.timings) :
    SatisfiesM (RunOutcome.Gives o f tree) (finishRun now o tree f session) := by
  unfold finishRun
  refine satisfiesM_bind fun time => ?_
  set ended := if 0 < f.sink.suppressed then session.point _ _ _ time else session
  have hended : (ended.timer.map (·.report)).isSome = o.timings := by
    rw [Option.isSome_map, ← hs]
    dsimp only [ended]
    split <;> rfl
  exact satisfiesM_bind fun time' => SatisfiesM.pure ⟨⟨⟨_, hended⟩, rfl⟩, rfl⟩

theorem Sink.reportAll_append (s : Sink) (ds es : List Diagnostic) :
    s.reportAll (ds ++ es) = (s.reportAll ds).reportAll es :=
  List.foldl_append

theorem satisfiesM_compileGraph {o : ElaborateOptions} (tree : FileTree) {f : Findings}
    (hf : f.program = none) (graph : ImportGraph) (alloc : Allocator) {session : Session}
    (hs : session.timer.isSome = o.timings) :
    SatisfiesM
      (RunOutcome.Gives o
        { f with
          program := (compile graph alloc o.maxAtoms).value
          sink := f.sink.reportAll (compile graph alloc o.maxAtoms).log }
        (match (compile graph alloc o.maxAtoms).value, o.cache with
          | some program, some dir =>
            Cache.store tree dir (cacheKey graph o.maxAtoms) program
              (compile graph alloc o.maxAtoms).log
          | _, _ => tree))
      (compileGraph now o tree f graph alloc session) := by
  unfold compileGraph
  refine satisfiesM_bind fun time => ?_
  dsimp only
  cases hbuilt : (buildGraph graph alloc).value with
  | mk design alloc' =>
      cases design with
      | none =>
          rw [compile_of_no_design hbuilt]
          refine satisfiesM_bind fun time => ?_
          simpa [hf] using satisfiesM_finishRun now tree _ (by simp [hs])
      | some design =>
          rw [compile_of_design hbuilt, Sink.reportAll_append]
          dsimp only
          refine satisfiesM_bind fun time => satisfiesM_bind fun time' => ?_
          cases hatomized : (design.atomize alloc' o.maxAtoms).value with
          | none =>
              refine satisfiesM_bind fun time => ?_
              simpa [hf] using satisfiesM_finishRun now tree _ (by simp [hs])
          | some program =>
              refine satisfiesM_bind fun time => satisfiesM_bind fun time' => ?_
              cases o.cache with
              | none => exact satisfiesM_finishRun now _ _ (by simp [hs])
              | some dir => exact satisfiesM_finishRun now _ _ (by simp [hs])

/-- A run that is not called off looks at the clock three times before it loads the files.
What it leaves then is a matter of the files and the settings alone. -/
theorem satisfiesM_elaborate {o : ElaborateOptions} (ho : o.cancelled = false) (tree : FileTree)
    (tracer : Trace.Tracer) (entry : String) (parse : TreeParser) :
    ∃ run : Int → Int → Int → m RunOutcome,
      (elaborate now o tree tracer entry parse = do
        let t₀ ← now
        let t₁ ← now
        let t₂ ← now
        run t₀ t₁ t₂) ∧
      ∀ t₀ t₁ t₂, SatisfiesM
        (RunOutcome.Gives o
          (findingsFor o tree (loadFiles (readingAt o tree tracer t₀ t₁ t₂ parse) o tree entry))
          (filesAfter o tree (loadFiles (readingAt o tree tracer t₀ t₁ t₂ parse) o tree entry)))
        (run t₀ t₁ t₂) := by
  unfold elaborate
  simp only [ho, Bool.false_eq_true, if_false]
  refine ⟨_, rfl, fun t₀ t₁ t₂ => ?_⟩
  unfold loadFiles readingAt
  dsimp only
  generalize Import.resolveWith _ _ _ _ _ _ = found
  unfold findingsFor filesAfter
  cases found.value.graph with
  | none => exact satisfiesM_bind fun time => satisfiesM_finishRun now _ _ (by simp)
  | some graph =>
      cases hbroken : graph.broken with
      | true =>
          simp only [hbroken, if_true, Bool.true_or]
          exact satisfiesM_bind fun time => satisfiesM_finishRun now _ _ (by simp)
      | false =>
          simp only [hbroken, Bool.false_eq_true, if_false, Bool.false_or]
          refine satisfiesM_bind fun time => ?_
          change SatisfiesM _ (match storedFor o tree graph with
            | some (stored, diagnostics) => _
            | none => _)
          cases storedFor o tree graph with
          | some entry => exact satisfiesM_bind fun time => satisfiesM_finishRun now _ _ (by simp)
          | none =>
              simp only [Option.isSome_none, Bool.false_eq_true, if_false]
              exact satisfiesM_compileGraph now tree
                (f := { files := found.value.files, graph := some graph,
                        sink := Sink.reportAll { bag := Bag.new o.limit } found.log })
                rfl graph found.value.alloc (by simp)

end Run

end Netlist
