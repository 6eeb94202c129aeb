import Netlist.Proofs.Atomize.Places
import Netlist.Proofs.Elaborate.Outcome
import Netlist.Proofs.Elaborate.Stages

/-!
# The verdict of a run

A run without stored results gives a program if and only if no stage reported an error and,
when warnings count as errors, none reported a warning either (`elaborate_verdict`).  The
limit of the bag, the filter for repeats and the times among the diagnostics change nothing
about that.
-/

namespace Netlist

/-! ## Warnings and times -/

theorem Severity.ne_warning_of_isError {s : Severity} (h : s.isError = true) : s ≠ .warning := by
  rintro rfl
  cases h

/-- The bag of a run has errors if and only if an error was reported, or a warning where
warnings count as errors. -/
theorem Sink.Covers.hasErrors_settleWarnings {s : Sink} {ds : List Diagnostic} (h : s.Covers ds)
    (hds : ∀ d ∈ ds, d.IsProblem) (o : ElaborateOptions) :
    (settleWarnings o s.bag).hasErrors = true ↔
      (∃ d ∈ ds, d.isError = true) ∨
        (o.warningsAsErrors = true ∧ ∃ d ∈ ds, d.severity = .warning) := by
  have hfilter : ∀ b : Bag, (b.filter fun d => d.severity != .warning).hasErrors = b.hasErrors := by
    intro b
    refine b.hasErrors_filter fun d hd => ?_
    simpa using Severity.ne_warning_of_isError hd
  have hsettle : (settleWarnings o s.bag).hasErrors =
      (if o.warningsAsErrors then s.bag.map Bag.promote else s.bag).hasErrors := by
    unfold settleWarnings
    dsimp only
    split
    · exact hfilter _
    · rfl
  rw [hsettle]
  cases o.warningsAsErrors with
  | false => simp [h.hasErrors]
  | true =>
      rw [if_pos rfl, Bag.hasErrors_map_promote, h.hasErrors]
      constructor
      · rintro (herror | ⟨d, hd, hwarning⟩)
        · exact .inl herror
        · exact .inr ⟨rfl, d, h.items_subset hd, hwarning⟩
      · rintro (herror | ⟨_, d, hd, _⟩)
        · exact .inl herror
        · -- the warning may have been turned away, but then the bag keeps another problem
          obtain ⟨e, he⟩ := List.exists_mem_of_ne_nil _ (h.keeps (List.ne_nil_of_mem hd))
          rcases hds e (h.items_subset he) with hwarning | herror
          · exact .inr ⟨e, he, hwarning⟩
          · refine .inl ⟨e, h.items_subset he, ?_⟩
            rw [Diagnostic.isError, herror]
            rfl

theorem Bag.hasErrors_insist (b : Bag) {d : Diagnostic} (hd : d.isError = false) :
    (b.insist d).hasErrors = b.hasErrors := by
  unfold Bag.insist
  split
  · rw [Bag.hasErrors_add, hd, Bool.or_false]
  · rw [Bag.hasErrors_merge, Bag.hasErrors_add, Bag.hasErrors_add, hd, Bool.or_false]
    simp [Bag.new, Bag.hasErrors]

theorem hasErrors_conclude (o : ElaborateOptions) (f : Findings) (report : Option TimingReport) :
    (conclude o f report).bag.hasErrors = (settleWarnings o f.sink.bag).hasErrors := by
  unfold conclude
  dsimp only
  rw [Bag.hasErrors_sort]
  cases report with
  | none => rfl
  | some r => exact Bag.hasErrors_insist _ rfl

/-! ## Verdicts -/

/-- The verdict on a run in which the stages reported `ds`. -/
def Elaboration.Verdict (o : ElaborateOptions) (ds : List Diagnostic) (e : Elaboration) : Prop :=
  (e.program.isSome = true ↔
    (∀ d ∈ ds, d.isError = false) ∧
      (o.warningsAsErrors = true → ∀ d ∈ ds, d.severity ≠ .warning)) ∧
  (e.program = none ↔ e.bag.hasErrors = true)

/-- The result is right if the stages fail only with an error. -/
theorem verdict_conclude {o : ElaborateOptions} {f : Findings} {ds : List Diagnostic}
    (hcovers : f.sink.Covers ds) (hds : ∀ d ∈ ds, d.IsProblem)
    (hprogram : f.program = none → ∃ d ∈ ds, d.isError = true) (report : Option TimingReport) :
    (conclude o f report).Verdict o ds := by
  have herrors := hcovers.hasErrors_settleWarnings hds o
  rw [← hasErrors_conclude o f report] at herrors
  have hvalue : (conclude o f report).program =
      if (conclude o f report).bag.hasErrors then none else f.program := rfl
  have hnone : (conclude o f report).program = none ↔
      (conclude o f report).bag.hasErrors = true := by
    rw [hvalue]
    constructor
    · intro h
      split at h
      · assumption
      · exact herrors.mpr (.inl (hprogram h))
    · intro h
      rw [if_pos h]
  refine ⟨?_, hnone⟩
  rw [Option.isSome_iff_ne_none, ne_eq, hnone, herrors]
  simp only [not_or, not_exists, not_and, Bool.not_eq_true]

/-! ## Stages -/

section

variable {r : Region} {graph : ImportGraph} (hgraph : graph.symbols.Joins r graph.documents)

include hgraph

theorem ensures_buildGraph (alloc : Allocator) :
    (buildGraph graph alloc).Ensures (Diagnostic.Proper r) fun p =>
      ∀ design, p.1 = some design → design.Closed r :=
  ensures_buildDesign hgraph alloc

/-- Where the documents and the symbols of a graph belong together, building and atomizing report
what is proper. -/
theorem reports_compile (alloc : Allocator) (maxAtoms : Int) :
    (compile graph alloc maxAtoms).Reports (Diagnostic.Proper r) := by
  have hbuilt := ensures_buildGraph hgraph alloc
  cases hvalue : (buildGraph graph alloc).value with
  | mk design alloc' =>
      cases design with
      | none =>
          rw [compile_of_no_design hvalue]
          exact hbuilt.reports
      | some design =>
          rw [compile_of_design hvalue]
          have hclosed := hbuilt.result design (by rw [hvalue])
          exact List.forall_mem_append.mpr ⟨hbuilt.reports, hclosed.reports_atomize _ _⟩

end

/-- Building and atomizing give no program if and only if they report an error. -/
theorem hasErrors_compile (graph : ImportGraph) (alloc : Allocator) (maxAtoms : Int) :
    (compile graph alloc maxAtoms).hasErrors = (compile graph alloc maxAtoms).value.isNone := by
  have hbuilt : (buildGraph graph alloc).hasErrors = (buildGraph graph alloc).value.1.isNone :=
    hasErrors_buildDesign _ _
  cases hvalue : (buildGraph graph alloc).value with
  | mk design alloc' =>
      rw [hvalue] at hbuilt
      cases design with
      | none =>
          rw [compile_of_no_design hvalue]
          exact hbuilt
      | some design =>
          rw [compile_of_design hvalue]
          have hatomized := design.hasErrors_atomize alloc' maxAtoms
          simp only [Logged.hasErrors, Option.isNone_some] at hbuilt hatomized ⊢
          rw [List.any_append, hbuilt, hatomized, Bool.false_or]

/-- What the stages of a run report that reads files with `read`.  A stage that fails is the
last one. -/
def stageReports (read : Import.Reading) (o : ElaborateOptions) (tree : FileTree)
    (entry : String) : List Diagnostic :=
  let found := loadFiles read o tree entry
  found.log ++
    match found.value.graph with
    | none => []
    | some graph =>
      if graph.broken then [] else (compile graph found.value.alloc o.maxAtoms).log

/-- All that the stages report is proper, and in the files that were loaded. -/
theorem proper_stageReports (read : Import.Reading) (o : ElaborateOptions) (tree : FileTree)
    (entry : String) : ∀ d ∈ stageReports read o tree entry,
      d.Proper (loadFiles read o tree entry).value.files.region := by
  have hloaded := Import.ensures_resolveWith read tree o.roots
    { workDir := tree.workDir, base := Import.projectRoot tree entry } {} entry
    (FileSet.within_region _)
  refine List.forall_mem_append.mpr ⟨hloaded.reports, ?_⟩
  split
  · exact fun _ h => absurd h List.not_mem_nil
  · next graph hgraph =>
    split
    · exact fun _ h => absurd h List.not_mem_nil
    · exact reports_compile (hloaded.result graph hgraph) _ _

theorem isProblem_stageReports (read : Import.Reading) (o : ElaborateOptions) (tree : FileTree)
    (entry : String) : ∀ d ∈ stageReports read o tree entry, d.IsProblem :=
  fun d hd => (proper_stageReports read o tree entry d hd).isProblem

theorem ElaborateOptions.limit_pos (o : ElaborateOptions) : 0 < o.limit := by
  unfold ElaborateOptions.limit ElaborateOptions.defaultMaxDiagnostics
  split
  · decide
  · omega

/-- Without stored results, what the stages reported is in the sink, and there is a program
unless one of them failed with an error. -/
theorem findingsFor_covers (read : Import.Reading) {o : ElaborateOptions} (ho : o.cache = none)
    (tree : FileTree) (entry : String) :
    (findingsFor o tree (loadFiles read o tree entry)).sink.Covers
        (stageReports read o tree entry) ∧
      ((findingsFor o tree (loadFiles read o tree entry)).program = none →
        ∃ d ∈ stageReports read o tree entry, d.isError = true) := by
  have hstored : ∀ graph, storedFor o tree graph = none := fun graph => by rw [storedFor, ho]; rfl
  have hloaded := (Sink.covers_new o.limit_pos).reportAll (loadFiles read o tree entry).log
  have hfails : (loadFiles read o tree entry).hasErrors =
      ((loadFiles read o tree entry).value.graph.map (·.broken)).getD true :=
    Import.hasErrors_resolveWith _ _ _ _ _ _
  unfold findingsFor stageReports
  generalize loadFiles read o tree entry = found at hloaded hfails
  rw [List.nil_append] at hloaded
  cases hgraph : found.value.graph with
  | none =>
      rw [hgraph] at hfails
      simp only [hgraph, List.append_nil]
      exact ⟨hloaded, fun _ => List.any_eq_true.mp hfails⟩
  | some graph =>
      rw [hgraph] at hfails
      cases hbroken : graph.broken with
      | true =>
          simp only [Option.map_some, hbroken, Option.getD_some] at hfails
          simp only [hgraph, hbroken, if_true, List.append_nil]
          exact ⟨hloaded, fun _ => List.any_eq_true.mp hfails⟩
      | false =>
          simp only [hgraph, hbroken, Bool.false_eq_true, if_false, hstored]
          refine ⟨hloaded.reportAll _, fun hnone => ?_⟩
          have herrors := hasErrors_compile graph found.value.alloc o.maxAtoms
          rw [hnone] at herrors
          obtain ⟨d, hd, herror⟩ := List.any_eq_true.mp herrors
          exact ⟨d, List.mem_append_right _ hd, herror⟩

/-! ## The verdict -/

/-- A run without stored results that is not called off has a result, and a program if and
only if nothing that was reported stands in the way. -/
theorem elaborate_verdict {m : Type → Type} [Monad m] [LawfulMonad m] (now : m Int)
    (o : ElaborateOptions) (tree : FileTree) (tracer : Trace.Tracer) (entry : String)
    (parse : TreeParser) (hcache : o.cache = none) (hruns : o.cancelled = false) :
    ∃ run : Int → Int → Int → m RunOutcome,
      (elaborate now o tree tracer entry parse = do
        let t₀ ← now
        let t₁ ← now
        let t₂ ← now
        run t₀ t₁ t₂) ∧
      ∀ t₀ t₁ t₂, SatisfiesM
        (fun out => ∃ e, out.result = some e ∧
          e.Verdict o (stageReports (readingAt o tree tracer t₀ t₁ t₂ parse) o tree entry))
        (run t₀ t₁ t₂) := by
  obtain ⟨run, hrun, hgives⟩ := satisfiesM_elaborate now hruns tree tracer entry parse
  refine ⟨run, hrun, fun t₀ t₁ t₂ => (hgives t₀ t₁ t₂).imp fun hout => ?_⟩
  obtain ⟨⟨report, hresult⟩, _⟩ := hout
  obtain ⟨hcovers, hprogram⟩ :=
    findingsFor_covers (readingAt o tree tracer t₀ t₁ t₂ parse) hcache tree entry
  exact ⟨_, hresult, verdict_conclude hcovers (isProblem_stageReports _ _ _ _) hprogram report⟩

/-- A tree of one file that gives two warnings. -/
def warned : FileTree where
  workDir := "/v"
  entries :=
    [(["v"], .directory),
      (["v", "a"], .file (Bytes.ofString "modules:\n  m:\n    colour: red\n    size: big\n"))]
  rooted := rfl

/-- Settings with room for one diagnostic, under which warnings count as errors and are left
out. -/
def strict : ElaborateOptions :=
  { maxDiagnostics := 1, warningsAsErrors := true, ignoreWarnings := true }

theorem elaborate_verdict_warned :
    ∃ e, (elaborate (m := Id) 0 strict warned Trace.Tracer.none "a").result = some e ∧
      e.program = none ∧ e.bag.hasErrors = true := by
  obtain ⟨run, hrun, hverdict⟩ :=
    elaborate_verdict (m := Id) 0 strict warned Trace.Tracer.none "a" readTree rfl rfl
  obtain ⟨e, hresult, hprogram, hbag⟩ := SatisfiesM_Id_eq.mp (hverdict 0 0 0)
  have hwarned : ∃ d ∈ (loadFiles (readingAt strict warned Trace.Tracer.none 0 0 0) strict warned
      "a").log, d.severity = .warning := by decide +kernel
  have hnone : e.program = none := by
    rw [← Option.not_isSome_iff_eq_none, hprogram]
    rintro ⟨_, hno⟩
    obtain ⟨d, hd, hseverity⟩ := hwarned
    exact hno rfl d (List.mem_append_left _ hd) hseverity
  rw [hrun]
  exact ⟨e, hresult, hnone, hbag.mp hnone⟩

end Netlist
