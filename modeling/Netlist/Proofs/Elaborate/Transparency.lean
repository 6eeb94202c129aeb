import Netlist.Proofs.Atomize.Storable
import Netlist.Proofs.Elaborate.Cache
import Netlist.Proofs.Elaborate.Key
import Netlist.Proofs.Elaborate.Verdict

/-!
# Stored results stand for fresh ones

A run that finds a stored result does not build and atomize.  After one run with an empty
directory, what a second run finds there is what it would have made itself, if the
namespaces of the two runs stand for the same files (`elaborate_stored_eq_fresh`).  The key
says nothing about them, and so a run with other library roots can find the program of
another design (`elaborate_stored_ne_fresh`).
-/

namespace Netlist

/-! ## Traces that go to no file -/

namespace Trace.Tracer

/-- The file that the trace is written to, if there is one. -/
def file? (t : Tracer) : Option String := t.stream.bind (·.file)

@[simp] theorem file?_none : none.file? = Option.none := rfl

@[simp] theorem file?_emit (t : Tracer) (event : UInt64 → Event) :
    (t.emit event).file? = t.file? := by
  unfold emit file?
  cases t.stream with
  | none => rfl
  | some s =>
      dsimp only [Option.map_some, Option.bind_some]
      split <;> rfl

theorem file?_withSpans (t : Tracer) (spans : UInt64) :
    { t with spans := spans }.file? = t.file? := rfl

@[simp] theorem file?_start (t : Tracer) (now : Int) (scope : Scope) (name : String)
    (parent : Place) : (t.start now scope name parent).2.file? = t.file? := by
  unfold start
  split
  · exact (file?_withSpans (t.emit _) _).trans (file?_emit t _)
  · rfl

@[simp] theorem file?_finish (t : Tracer) (now : Int) (span : Span) (detail : String) :
    (t.finish now span detail).file? = t.file? := by
  unfold finish
  split
  · exact file?_emit t _
  · rfl

@[simp] theorem file?_attach (t : Tracer) (span : Span) (key value : String) :
    (t.attach span key value).2.file? = t.file? := by
  unfold attach
  split <;> rfl

theorem view_of_file? {t : Tracer} (h : t.file? = Option.none) (tree : FileTree) :
    t.view tree = tree := by
  unfold view
  unfold file? at h
  cases hs : t.stream with
  | none => rfl
  | some s =>
      rw [hs, Option.bind_some] at h
      rw [Option.bind_some, h]
      rfl

end Trace.Tracer

@[simp] theorem Session.file?_recordVisits (now : Int) : ∀ (visits : List Import.Visit)
    (spans : List Trace.Span) (s : Session),
    (s.recordVisits now spans visits).tracer.file? = s.tracer.file?
  | [], _, _ => by rw [recordVisits]
  | .enter _ :: rest, _, _ => by
      rw [recordVisits]
      exact (file?_recordVisits now rest _ _).trans (Trace.Tracer.file?_start ..)
  | .leave _ :: rest, [], _ => by
      rw [recordVisits]
      exact file?_recordVisits now rest _ _
  | .leave _ :: rest, _ :: _, _ => by
      rw [recordVisits]
      refine (file?_recordVisits now rest _ _).trans ?_
      exact (Trace.Tracer.file?_finish ..).trans (Trace.Tracer.file?_attach ..)

theorem readingAt_of_file? {tracer : Trace.Tracer} (h : tracer.file? = none) (o : ElaborateOptions)
    (tree : FileTree) (t₀ t₁ t₂ : Int) (parse : TreeParser) :
    readingAt o tree tracer t₀ t₁ t₂ parse = .plain tree parse := by
  refine congrArg (Import.Reading.mk · parse) (funext fun met => funext fun path => ?_)
  dsimp only
  rw [Trace.Tracer.view_of_file?]
  rw [Session.file?_recordVisits]
  exact (Trace.Tracer.file?_start ..).trans ((Trace.Tracer.file?_start ..).trans h)

/-! ## Runs on files that do not change -/

/-- What is loaded for an entry from files that do not change. -/
def loadedFor (o : ElaborateOptions) (tree : FileTree) (entry : String)
    (parse : TreeParser := readTree) : Logged Import.Resolution :=
  loadFiles (.plain tree parse) o tree entry

/-- An outcome of a run: nothing if it was called off, otherwise what follows from the files and
the settings. -/
def RunOutcome.Follows (o : ElaborateOptions) (tree : FileTree) (entry : String)
    (parse : TreeParser) (out : RunOutcome) : Prop :=
  if o.cancelled then out.result = none ∧ out.tree = tree
  else out.Gives o (findingsFor o tree (loadedFor o tree entry parse))
    (filesAfter o tree (loadedFor o tree entry parse))

theorem RunOutcome.Follows.gives {o : ElaborateOptions} {tree : FileTree} {entry : String}
    {parse : TreeParser} {out : RunOutcome} (h : out.Follows o tree entry parse)
    (hruns : o.cancelled = false) :
    out.Gives o (findingsFor o tree (loadedFor o tree entry parse))
      (filesAfter o tree (loadedFor o tree entry parse)) := by
  rwa [Follows, hruns, if_neg Bool.false_ne_true] at h

theorem satisfiesM_follows {m : Type → Type} [Monad m] [LawfulMonad m] (now : m Int)
    (o : ElaborateOptions) (tree : FileTree) {tracer : Trace.Tracer} (h : tracer.file? = none)
    (entry : String) (parse : TreeParser) :
    SatisfiesM (RunOutcome.Follows o tree entry parse)
      (elaborate now o tree tracer entry parse) := by
  cases hc : o.cancelled with
  | true =>
      unfold elaborate
      simp only [hc, if_true]
      refine satisfiesM_bind fun t₀ => satisfiesM_bind fun t₁ => ?_
      refine satisfiesM_bind fun t₂ => satisfiesM_bind fun t₃ => SatisfiesM.pure ?_
      simp [RunOutcome.Follows, hc]
  | false =>
      obtain ⟨run, hrun, hgives⟩ := satisfiesM_elaborate now hc tree tracer entry parse
      rw [hrun]
      refine satisfiesM_bind fun t₀ => satisfiesM_bind fun t₁ => satisfiesM_bind fun t₂ => ?_
      refine (hgives t₀ t₁ t₂).imp fun hout => ?_
      rw [readingAt_of_file? h] at hout
      simp only [RunOutcome.Follows, hc, Bool.false_eq_true, if_false]
      exact hout

/-! ## Times among the diagnostics -/

/-- A diagnostic without the times that it carries. -/
def Diagnostic.withoutTimes (d : Diagnostic) : Diagnostic :=
  if d.code == .timings then { d with message := .text "", notes := [] } else d

theorem Diagnostic.isError_withoutTimes (d : Diagnostic) : d.withoutTimes.isError = d.isError := by
  unfold withoutTimes
  split <;> rfl

theorem Diagnostic.sortKey_withoutTimes (d : Diagnostic) :
    Bag.sortKey d.withoutTimes = Bag.sortKey d := by
  unfold withoutTimes
  split <;> rfl

/-- The times do not show without them. -/
theorem withoutTimes_timingDiagnostic (report report' : TimingReport) (hit hit' : Bool) :
    (timingDiagnostic report hit).withoutTimes = (timingDiagnostic report' hit').withoutTimes := rfl

namespace Bag

variable {f : Diagnostic → Diagnostic} (hf : ∀ d, (f d).isError = d.isError)

include hf

theorem map_add (b : Bag) (d : Diagnostic) : (b.add d).map f = (b.map f).add (f d) := by
  unfold add
  have hroom : (b.map f).hasRoom = b.hasRoom := by simp [hasRoom, map]
  rw [hroom]
  split
  · simp [map]
  · simp [map, hf]

theorem map_addAll (ds : List Diagnostic) : ∀ b : Bag,
    (b.addAll ds).map f = (b.map f).addAll (ds.map f) := by
  induction ds with
  | nil => exact fun b => rfl
  | cons d ds ih =>
      intro b
      rw [addAll, List.foldl_cons, List.map_cons, addAll, List.foldl_cons, ← map_add hf]
      exact ih (b.add d)

theorem map_merge (b other : Bag) : (b.merge other).map f = (b.map f).merge (other.map f) := by
  have hall (limit : Nat) : ({ b with limit := limit }.addAll other.items).map f =
      ({ b.map f with limit := limit }.addAll (other.items.map f)) := map_addAll hf _ _
  unfold merge
  simp only [map, List.length_map] at hall ⊢
  rw [← hall]

theorem map_insist (b : Bag) (d : Diagnostic) : (b.insist d).map f = (b.map f).insist (f d) := by
  unfold insist
  have hroom : (b.map f).hasRoom = b.hasRoom := by simp [hasRoom, map]
  rw [hroom]
  split
  · exact map_add hf b d
  · rw [map_merge hf, map_add hf, map_add hf]
    rfl

omit hf in
theorem map_sort (hkey : ∀ d, sortKey (f d) = sortKey d) (b : Bag) :
    b.sort.map f = (b.map f).sort := by
  have hitems : (b.items.mergeSort inOrder).map f = (b.items.map f).mergeSort inOrder :=
    List.map_mergeSort fun x _ y _ => by simp [inOrder, hkey]
  simp only [sort, map, hitems]

end Bag

/-- What is reported in the end depends on what was reported before, but for the times. -/
theorem bag_conclude_eq {o o' : ElaborateOptions} {f f' : Findings}
    {report report' : Option TimingReport} (hreport : report.isSome = report'.isSome)
    (hbag : settleWarnings o f.sink.bag = settleWarnings o' f'.sink.bag) :
    (conclude o f report).bag.map Diagnostic.withoutTimes =
      (conclude o' f' report').bag.map Diagnostic.withoutTimes := by
  simp only [conclude, Bag.map_sort Diagnostic.sortKey_withoutTimes, hbag]
  cases report with
  | none =>
      cases report' with
      | none => rfl
      | some _ => cases hreport
  | some r =>
      cases report' with
      | none => cases hreport
      | some r' =>
          simp only [Bag.map_insist Diagnostic.isError_withoutTimes,
            withoutTimes_timingDiagnostic r r' f.cacheHit f'.cacheHit]

/-! ## What a stored result says -/

/-- The result is that of a fresh run: the program without files and spans, and the same
diagnostics but for the times. -/
structure Elaboration.Repeats (e fresh : Elaboration) : Prop where
  program : e.program = fresh.program.map Program.withoutPlaces
  stored : e.stored = fresh.program.map Stored.Program.ofProgram
  bag : e.bag.map Diagnostic.withoutTimes = fresh.bag.map Diagnostic.withoutTimes

theorem program_conclude (o : ElaborateOptions) (f : Findings) (report : Option TimingReport) :
    (conclude o f report).program =
      if (conclude o f report).bag.hasErrors then none else f.program := rfl

variable {tree : FileTree} {o : ElaborateOptions} {found : Logged Import.Resolution}
  {graph : ImportGraph} {o₁ o₂ : ElaborateOptions} {dir : String} {p : Program} {entry : String}

theorem repeats_conclude {o o' : ElaborateOptions} {f f' : Findings}
    {report report' : Option TimingReport} (hp : p.Storable)
    (hreport : report.isSome = report'.isSome)
    (hbag : settleWarnings o f.sink.bag = settleWarnings o' f'.sink.bag)
    (hstored : f.stored = some (.ofProgram p))
    (hprogram : f.program = some (Stored.Program.ofProgram p).toProgram)
    (hfresh : f'.program = some p) : (conclude o f report).Repeats (conclude o' f' report') := by
  have herrors : (conclude o f report).bag.hasErrors = (conclude o' f' report').bag.hasErrors := by
    rw [hasErrors_conclude, hasErrors_conclude, hbag]
  have hkept (o : ElaborateOptions) (f : Findings) (report : Option TimingReport) :
      (conclude o f report).stored =
        if (conclude o f report).bag.hasErrors then none else f.stored := rfl
  refine ⟨?_, ?_, bag_conclude_eq hreport hbag⟩
  · rw [program_conclude, program_conclude, herrors, hprogram, hfresh,
      Stored.toProgram_ofProgram hp]
    split <;> rfl
  · rw [hkept, program_conclude, herrors, hstored, hfresh]
    split <;> rfl

theorem graph_findingsFor (o : ElaborateOptions) (tree : FileTree)
    (found : Logged Import.Resolution) :
    (findingsFor o tree found).graph = found.value.graph := by
  unfold findingsFor
  dsimp only
  split
  · rfl
  · split
    · rfl
    · split <;> rfl

/-- A run that used a stored result had a graph without errors and found the result under its
key. -/
theorem exists_of_cacheHit (h : (findingsFor o tree found).cacheHit = true) :
    ∃ graph stored ds, found.value.graph = some graph ∧ graph.broken = false ∧
      storedFor o tree graph = some (stored, ds) := by
  unfold findingsFor at h
  dsimp only at h
  split at h
  · cases h
  · next graph hgraph =>
    split at h
    · cases h
    · next hbroken =>
      split at h
      · next stored ds hstored =>
        exact ⟨graph, stored, ds, hgraph, by simpa using hbroken, hstored⟩
      · cases h

/-- A run that leaves other files than it found stored the result that it compiled. -/
theorem filesAfter_cases (o : ElaborateOptions) (tree : FileTree)
    (found : Logged Import.Resolution) :
    filesAfter o tree found = tree ∨ ∃ graph dir p, found.value.graph = some graph ∧
      o.cache = some dir ∧ (compile graph found.value.alloc o.maxAtoms).value = some p ∧
      filesAfter o tree found = Cache.store tree dir (cacheKey graph o.maxAtoms) p
        (compile graph found.value.alloc o.maxAtoms).log := by
  unfold filesAfter
  split
  · exact .inl rfl
  · next graph hgraph =>
    split
    · exact .inl rfl
    · dsimp only
      split
      · next p dir hp hdir => exact .inr ⟨graph, dir, p, hgraph, hdir, hp, rfl⟩
      · exact .inl rfl

theorem storable_of_compile {alloc : Allocator} {maxAtoms : Int}
    (hmax : maxAtoms < 2 ^ 63) (h : (compile graph alloc maxAtoms).value = some p) :
    p.Storable := by
  cases hbuilt : (buildGraph graph alloc).value with
  | mk design alloc' =>
      cases design with
      | none =>
          rw [compile_of_no_design hbuilt] at h
          cases h
      | some design =>
          rw [compile_of_design hbuilt] at h
          exact Design.storable_of_atomize hmax h

theorem cacheKey_ne_nil (graph : ImportGraph) (maxAtoms : Int) : cacheKey graph maxAtoms ≠ [] := by
  intro h
  have := Sha256.length_digest (graph.digest ++ Digest.salt [maxAtoms])
  rw [← ImportGraph.cacheKey_eq, h] at this
  cases this

/-- Nothing is found in a directory without files. -/
theorem storedFor_of_empty (hcache : o.cache = some dir)
    (hempty : tree.filesBelow (Path.components (Path.absolute tree.workDir dir)) = [])
    (graph : ImportGraph) : storedFor o tree graph = none := by
  rw [storedFor, hcache, Option.bind_some, ← Option.not_isSome_iff_eq_none,
    Option.isSome_iff_exists]
  rintro ⟨found, hload⟩
  obtain ⟨content, hread⟩ := Cache.exists_read_of_load hload
  have hfile := Cache.mem_filesBelow_of_read (cacheKey_ne_nil _ _) hread
  rw [hempty] at hfile
  exact absurd hfile List.not_mem_nil

/-- What a second run finds in a directory that was empty before the first one is the result
that the first run compiled. -/
theorem stored_of_cacheHit {found₁ : Logged Import.Resolution} {graph₂ : ImportGraph}
    {stored : Stored.Program} {ds : List Diagnostic} (hcache₁ : o₁.cache = some dir)
    (hcache₂ : o₂.cache = some dir) (hmax₁ : o₁.maxAtoms < 2 ^ 63)
    (hempty : tree.filesBelow (Path.components (Path.absolute tree.workDir dir)) = [])
    (hstored : storedFor o₂ (filesAfter o₁ tree found₁) graph₂ = some (stored, ds)) :
    ∃ graph₁ p, found₁.value.graph = some graph₁ ∧
      (compile graph₁ found₁.value.alloc o₁.maxAtoms).value = some p ∧ p.Storable ∧
      ((∀ file ∈ (filesAfter o₁ tree found₁).filesBelow
          (Path.components (Path.absolute tree.workDir dir)), file.2.length < 2 ^ 32) →
        cacheKey graph₂ o₂.maxAtoms = cacheKey graph₁ o₁.maxAtoms ∧ stored = .ofProgram p ∧
          ds = (compile graph₁ found₁.value.alloc o₁.maxAtoms).log) := by
  rcases filesAfter_cases o₁ tree found₁ with hsame | ⟨graph₁, dir', p, hgraph₁, hdir, hp, hstore⟩
  · rw [hsame, storedFor_of_empty hcache₂ hempty] at hstored
    cases hstored
  · rw [hcache₁] at hdir
    cases hdir
    have hstorable := storable_of_compile hmax₁ hp
    refine ⟨graph₁, p, hgraph₁, hp, hstorable, fun hsize => ?_⟩
    rw [storedFor, hcache₂, Option.bind_some, hstore] at hstored
    rw [hstore] at hsize
    obtain ⟨hkey, heq⟩ := Cache.load_store (cacheKey_ne_nil _ _) (cacheKey_ne_nil _ _) hempty
      hstorable hsize hstored
    rw [Prod.mk.injEq] at heq
    exact ⟨hkey, heq⟩

/-- A run that finds nothing stored and compiles its graph stores what it compiled. -/
theorem filesAfter_of_compile (hcache : o.cache = some dir)
    (hempty : tree.filesBelow (Path.components (Path.absolute tree.workDir dir)) = [])
    (hgraph : found.value.graph = some graph) (hbroken : graph.broken = false)
    (hp : (compile graph found.value.alloc o.maxAtoms).value = some p) :
    filesAfter o tree found = Cache.store tree dir (cacheKey graph o.maxAtoms) p
      (compile graph found.value.alloc o.maxAtoms).log := by
  have hnone := storedFor_of_empty hcache hempty graph
  unfold filesAfter
  simp only [hgraph, hbroken, hnone, Option.isSome_none, Bool.or_self, Bool.false_eq_true, if_false,
    hp, hcache]

/-- What the first run compiled is found by a second run that can read a file under its key. -/
theorem storedFor_of_read
    {found₁ : Logged Import.Resolution} {graph₁ graph₂ : ImportGraph} {content : Bytes}
    (hcache₁ : o₁.cache = some dir) (hcache₂ : o₂.cache = some dir) (hmax₁ : o₁.maxAtoms < 2 ^ 63)
    (hempty : tree.filesBelow (Path.components (Path.absolute tree.workDir dir)) = [])
    (hgraph : found₁.value.graph = some graph₁) (hbroken : graph₁.broken = false)
    (hp : (compile graph₁ found₁.value.alloc o₁.maxAtoms).value = some p)
    (hread : (filesAfter o₁ tree found₁).read (Cache.pathFor dir (cacheKey graph₂ o₂.maxAtoms)) =
      .ok content) (hsize : content.length < 2 ^ 32) :
    storedFor o₂ (filesAfter o₁ tree found₁) graph₂ =
      some (.ofProgram p, (compile graph₁ found₁.value.alloc o₁.maxAtoms).log) := by
  rw [filesAfter_of_compile hcache₁ hempty hgraph hbroken hp] at hread ⊢
  obtain ⟨-, rfl⟩ :=
    Cache.eq_of_read_store (cacheKey_ne_nil _ _) (cacheKey_ne_nil _ _) hempty hread
  rw [storedFor, hcache₂, Option.bind_some]
  exact Cache.load_of_read hread (storable_of_compile hmax₁ hp) hsize

/-! ## Two runs -/

/-- The settings for a run that neither stores results nor looks for them. -/
def ElaborateOptions.withoutCache (o : ElaborateOptions) : ElaborateOptions :=
  { o with cache := none }

/-- Files are loaded without a look at stored results. -/
theorem loadedFor_withoutCache (o : ElaborateOptions) (tree : FileTree) (entry : String) :
    loadedFor o.withoutCache tree entry = loadedFor o tree entry := rfl

/-- Two runs one after the other, and the second one without stored results. -/
structure TwoRuns where
  first : RunOutcome
  second : RunOutcome
  /-- The second run, if nothing had been stored. -/
  fresh : RunOutcome

/-- Runs twice. -/
def elaborateTwice {m : Type → Type} [Monad m] (now : m Int) (o₁ o₂ : ElaborateOptions)
    (tree : FileTree) (tracer₁ tracer₂ tracer₃ : Trace.Tracer) (entry : String)
    (parse : TreeParser := readTree) : m TwoRuns := do
  let first ← elaborate now o₁ tree tracer₁ entry parse
  let second ← elaborate now o₂ first.tree tracer₂ entry parse
  let fresh ← elaborate now o₂.withoutCache first.tree tracer₃ entry parse
  return ⟨first, second, fresh⟩

/-- Two graphs can be told apart by their keys as far as keys go: digests do not collide, and
all files have a number of their own. -/
structure ImportGraph.Distinguished (g₁ : ImportGraph) (n₁ : Int) (g₂ : ImportGraph) (n₂ : Int) :
    Prop where
  collisionless : Collisionless (g₁.hashed n₁) (g₂.hashed n₂)
  numbered₁ : g₁.nodes.length ≤ 2 ^ 32
  numbered₂ : g₂.nodes.length ≤ 2 ^ 32

theorem findingsFor_of_stored {stored : Stored.Program}
    {ds : List Diagnostic} (hgraph : found.value.graph = some graph)
    (hbroken : graph.broken = false)
    (hstored : storedFor o tree graph = some (stored, ds)) :
    findingsFor o tree found =
      { files := found.value.files, graph := some graph, program := some stored.toProgram,
        stored := some stored,
        sink := (Sink.reportAll { bag := Bag.new o.limit } found.log).reportAll ds } := by
  unfold findingsFor
  simp only [hgraph, hbroken, Bool.false_eq_true, if_false, hstored]

theorem findingsFor_of_not_stored
    (hgraph : found.value.graph = some graph) (hbroken : graph.broken = false)
    (hstored : storedFor o tree graph = none) :
    findingsFor o tree found =
      { files := found.value.files, graph := some graph,
        program := (compile graph found.value.alloc o.maxAtoms).value,
        sink := (Sink.reportAll { bag := Bag.new o.limit } found.log).reportAll
          (compile graph found.value.alloc o.maxAtoms).log } := by
  unfold findingsFor
  simp only [hgraph, hbroken, Bool.false_eq_true, if_false, hstored]

theorem made_of_loadedFor {parse : TreeParser} {g : ImportGraph}
    (hg : (loadedFor o tree entry parse).value.graph = some g) (hsize : g.nodes.length ≤ 2 ^ 32) :
    g.Made parse (loadedFor o tree entry parse).value.alloc :=
  Import.made_of_resolve rfl hg hsize

/-- A second run that finds a stored result concludes from it what it would conclude from a
result of its own. -/
theorem repeats_of_cacheHit {parse : TreeParser} (hcache₁ : o₁.cache = some dir)
    (hcache₂ : o₂.cache = some dir)
    (hempty : tree.filesBelow (Path.components (Path.absolute tree.workDir dir)) = [])
    (hmax₁ : -2 ^ 63 ≤ o₁.maxAtoms ∧ o₁.maxAtoms < 2 ^ 63)
    (hmax₂ : -2 ^ 63 ≤ o₂.maxAtoms ∧ o₂.maxAtoms < 2 ^ 63) :
    let fresh := o₂.withoutCache
    let after := filesAfter o₁ tree (loadedFor o₁ tree entry parse)
    let loaded := loadedFor o₂ after entry parse
    (findingsFor o₂ after loaded).cacheHit = true →
    ∃ g₁ g₂, (loadedFor o₁ tree entry parse).value.graph = some g₁ ∧
      loaded.value.graph = some g₂ ∧
      (g₁.bindings = g₂.bindings → g₁.Distinguished o₁.maxAtoms g₂ o₂.maxAtoms →
        (∀ file ∈ after.filesBelow (Path.components (Path.absolute tree.workDir dir)),
          file.2.length < 2 ^ 32) →
        ∀ report report' : Option TimingReport, report.isSome = report'.isSome →
          (conclude o₂ (findingsFor o₂ after loaded) report).Repeats
            (conclude fresh (findingsFor fresh after (loadedFor fresh after entry parse))
              report')) := by
  intro fresh after loaded hhit
  obtain ⟨g₂, stored, ds, hg₂, hbroken, hstored⟩ := exists_of_cacheHit hhit
  obtain ⟨g₁, p, hg₁, hp, hstorable, hfound⟩ :=
    stored_of_cacheHit hcache₁ hcache₂ hmax₁.2 hempty hstored
  refine ⟨g₁, g₂, hg₁, hg₂, fun hbindings hdistinguished hsize report report' hreport => ?_⟩
  obtain ⟨hkey, rfl, rfl⟩ := hfound hsize
  have hcompile := compile_eq_of_cacheKey_eq (made_of_loadedFor hg₁ hdistinguished.numbered₁)
    (made_of_loadedFor hg₂ hdistinguished.numbered₂) hmax₁ hmax₂ hdistinguished.collisionless
    hkey.symm hbindings
  have hnone : storedFor fresh after g₂ = none := rfl
  have hloaded : (loadedFor fresh after entry parse).value.graph = some g₂ := hg₂
  have hfresh := findingsFor_of_not_stored hloaded hbroken hnone
  have hprogram :
      (findingsFor fresh after (loadedFor fresh after entry parse)).program = some p := by
    rw [hfresh, ← hp, hcompile]
    rfl
  rw [findingsFor_of_stored hg₂ hbroken hstored]
  refine repeats_conclude hstorable hreport ?_ rfl rfl hprogram
  rw [hfresh, hcompile]
  rfl

/-! ## Results that are found -/

/-- Namespaces stand for files by the imports of the nodes alone. -/
theorem ImportGraph.bindings_eq_of_nodes {g₁ g₂ : ImportGraph}
    (h : (g₁.nodes.map fun n => (n.id, n.imports)) = g₂.nodes.map fun n => (n.id, n.imports)) :
    g₁.bindings = g₂.bindings := by
  have heq (g : ImportGraph) (file : FileId) (ns : String) : g.bindings file ns =
      ((g.nodes.map fun n => (n.id, n.imports)).find? (·.1 == file)).bind fun n =>
        (n.2.find? (·.ns == ns)).map (·.target) := by
    rw [List.find?_map, bindings, node?]
    cases hn : g.nodes.find? (·.id == file) <;> simp [hn]
  funext file ns
  rw [heq, heq, h]

theorem elaborate_follows (o : ElaborateOptions) (tree : FileTree) (entry : String) :
    RunOutcome.Follows o tree entry readTree (elaborate (m := Id) 0 o tree .none entry) :=
  SatisfiesM_Id_eq.mp (satisfiesM_follows (m := Id) 0 o tree rfl entry readTree)

/-- Where warnings are no errors, a run without stored results gives what it compiles. -/
theorem program_of_compile
    {g : ImportGraph} {q : Program} (hcache : o.cache = none)
    (hwarnings : o.warningsAsErrors = false)
    (hgraph : (loadedFor o tree entry).value.graph = some g) (hbroken : g.broken = false)
    (hq : (compile g (loadedFor o tree entry).value.alloc o.maxAtoms).value = some q)
    (report : Option TimingReport) :
    (conclude o (findingsFor o tree (loadedFor o tree entry)) report).program = some q := by
  have hnone : storedFor o tree g = none := by rw [storedFor, hcache, Option.bind_none]
  have hloaded : (loadedFor o tree entry).hasErrors = false := by
    have hfails : (loadedFor o tree entry).hasErrors =
        ((loadedFor o tree entry).value.graph.map (·.broken)).getD true :=
      Import.hasErrors_resolveWith _ _ _ _ _ _
    rw [hfails, hgraph, Option.map_some, Option.getD_some, hbroken]
  have hcompiled := hasErrors_compile g (loadedFor o tree entry).value.alloc o.maxAtoms
  rw [hq, Option.isNone_some] at hcompiled
  obtain ⟨hcovers, hprogram⟩ := findingsFor_covers (.plain tree) hcache tree entry
  have hquiet : ∀ d ∈ stageReports (.plain tree) o tree entry,
      d.isError = false := by
    rw [stageReports, ← loadedFor]
    simp only [hgraph, hbroken, Bool.false_eq_true, if_false]
    refine List.forall_mem_append.mpr ⟨fun d hd => ?_, fun d hd => ?_⟩
    · exact Bool.eq_false_iff.mpr (List.any_eq_false.mp hloaded d hd)
    · exact Bool.eq_false_iff.mpr (List.any_eq_false.mp hcompiled d hd)
  have hverdict : (conclude o (findingsFor o tree (loadedFor o tree entry)) report).Verdict o _ :=
    verdict_conclude hcovers (isProblem_stageReports _ _ _ _) hprogram report
  have hsome := hverdict.1.mpr ⟨hquiet, fun h => absurd (hwarnings.symm.trans h) Bool.false_ne_true⟩
  rw [program_conclude] at hsome ⊢
  split at hsome
  · cases hsome
  · next hquiet =>
    rw [if_neg hquiet, findingsFor_of_not_stored hgraph hbroken hnone]
    exact hq

section Reuse

variable {o₁ o₂ : ElaborateOptions} {dir entry : String} {tree : FileTree} {g₁ g₂ : ImportGraph}
  {p : Program}

/-- The second run can use what the first one compiled: the key is the same, and the file for it
can be read. -/
structure Reuse (o₁ o₂ : ElaborateOptions) (dir : String) (tree : FileTree) (entry : String)
    (g₁ g₂ : ImportGraph) (p : Program) : Prop where
  runs₁ : o₁.cancelled = false
  runs₂ : o₂.cancelled = false
  cache₁ : o₁.cache = some dir
  cache₂ : o₂.cache = some dir
  max₁ : o₁.maxAtoms < 2 ^ 63
  empty : tree.filesBelow (Path.components (Path.absolute tree.workDir dir)) = []
  graph₁ : (loadedFor o₁ tree entry).value.graph = some g₁
  broken₁ : g₁.broken = false
  compiled : (compile g₁ (loadedFor o₁ tree entry).value.alloc o₁.maxAtoms).value = some p
  graph₂ : (loadedFor o₂ (filesAfter o₁ tree (loadedFor o₁ tree entry)) entry).value.graph = some g₂
  broken₂ : g₂.broken = false
  key : cacheKey g₂ o₂.maxAtoms = cacheKey g₁ o₁.maxAtoms
  read : ((filesAfter o₁ tree (loadedFor o₁ tree entry)).read
    (Cache.pathFor dir (cacheKey g₁ o₁.maxAtoms))).toOption.isSome = true
  sizes : ∀ file ∈ (filesAfter o₁ tree (loadedFor o₁ tree entry)).filesBelow
    (Path.components (Path.absolute tree.workDir dir)), file.2.length < 2 ^ 32

variable (h : Reuse o₁ o₂ dir tree entry g₁ g₂ p)

include h

theorem Reuse.storedFor : storedFor o₂ (filesAfter o₁ tree (loadedFor o₁ tree entry)) g₂ =
    some (.ofProgram p, (compile g₁ (loadedFor o₁ tree entry).value.alloc o₁.maxAtoms).log) := by
  obtain ⟨content, hread⟩ : ∃ content, (filesAfter o₁ tree (loadedFor o₁ tree entry)).read
      (Cache.pathFor dir (cacheKey g₂ o₂.maxAtoms)) = .ok content := by
    rw [h.key]
    cases hread : (filesAfter o₁ tree (loadedFor o₁ tree entry)).read
        (Cache.pathFor dir (cacheKey g₁ o₁.maxAtoms)) with
    | ok content => exact ⟨content, rfl⟩
    | error fault => exact absurd (hread ▸ h.read) nofun
  have hfile := Cache.mem_filesBelow_of_read (cacheKey_ne_nil g₂ o₂.maxAtoms) hread
  have hworkDir : (filesAfter o₁ tree (loadedFor o₁ tree entry)).workDir = tree.workDir := by
    rw [filesAfter_of_compile h.cache₁ h.empty h.graph₁ h.broken₁ h.compiled, Cache.workDir_store]
  rw [hworkDir] at hfile
  exact storedFor_of_read h.cache₁ h.cache₂ h.max₁ h.empty h.graph₁ h.broken₁ h.compiled hread
    (h.sizes _ hfile)

/-- The second run uses a stored result, and its program, if it gives one, is what the first run
compiled. -/
theorem Reuse.outcome :
    let runs := elaborateTwice (m := Id) 0 o₁ o₂ tree .none .none .none entry
    let after := filesAfter o₁ tree (loadedFor o₁ tree entry)
    let found := findingsFor o₂.withoutCache after (loadedFor o₂.withoutCache after entry)
    ∃ e₁ e₂ report, runs.first.result = some e₁ ∧ runs.second.result = some e₂ ∧
      runs.fresh.result = some (conclude o₂.withoutCache found report) ∧ runs.first.tree = after ∧
      e₁.graph = some g₁ ∧ e₂.graph = some g₂ ∧ e₂.cacheHit = true ∧
      ∀ q, e₂.program = some q → q = p.withoutPlaces := by
  intro runs after found
  obtain ⟨⟨report₁, hresult₁⟩, htree⟩ := (elaborate_follows o₁ tree entry).gives h.runs₁
  obtain ⟨⟨report₂, hresult₂⟩, -⟩ := (elaborate_follows o₂ runs.first.tree entry).gives h.runs₂
  obtain ⟨⟨report₃, hresult₃⟩, -⟩ :=
    (elaborate_follows o₂.withoutCache runs.first.tree entry).gives h.runs₂
  have hafter : runs.first.tree = after := htree
  have hfound := findingsFor_of_stored h.graph₂ h.broken₂ h.storedFor
  refine ⟨_, _, report₃, hresult₁, hresult₂, ?_, hafter, ?_, ?_, ?_, ?_⟩
  · simp only [found]
    rw [← hafter]
    exact hresult₃
  · exact (graph_findingsFor ..).trans h.graph₁
  · rw [hafter]
    exact (graph_findingsFor ..).trans h.graph₂
  · rw [hafter, hfound]
    rfl
  · intro q hq
    rw [hafter, hfound, program_conclude] at hq
    split at hq
    · cases hq
    · rw [← Option.some.inj hq]
      exact Stored.toProgram_ofProgram (storable_of_compile h.max₁ h.compiled)

theorem Reuse.program_fresh {q : Program} (hwarnings : o₂.warningsAsErrors = false)
    (hq : (compile g₂
      (loadedFor o₂ (filesAfter o₁ tree (loadedFor o₁ tree entry)) entry).value.alloc
      o₂.maxAtoms).value = some q) (report : Option TimingReport) :
    (conclude o₂.withoutCache (findingsFor o₂.withoutCache
      (filesAfter o₁ tree (loadedFor o₁ tree entry)) (loadedFor o₂.withoutCache
        (filesAfter o₁ tree (loadedFor o₁ tree entry)) entry)) report).program = some q := by
  have hcache : o₂.withoutCache.cache = none := rfl
  have hwarnings' : o₂.withoutCache.warningsAsErrors = false := hwarnings
  refine program_of_compile hcache hwarnings' ?_ h.broken₂ ?_ report
  · rw [loadedFor_withoutCache]
    exact h.graph₂
  · rw [loadedFor_withoutCache]
    exact hq

end Reuse

/-! ## Transparency -/

/-- After one run with an empty directory of stored results, a second run with any settings that
uses a stored result gives what it would give without one, if the namespaces of the two
runs stand for the same files.  It makes no difference how the trees of files are found. -/
theorem elaborate_stored_eq_fresh {m : Type → Type} [Monad m] [LawfulMonad m] (now : m Int)
    (o₁ o₂ : ElaborateOptions) (dir : String) (tree : FileTree)
    (tracer₁ tracer₂ tracer₃ : Trace.Tracer) (entry : String) (parse : TreeParser)
    (hcache₁ : o₁.cache = some dir) (hcache₂ : o₂.cache = some dir)
    (hempty : tree.filesBelow (Path.components (Path.absolute tree.workDir dir)) = [])
    (hmax₁ : -2 ^ 63 ≤ o₁.maxAtoms ∧ o₁.maxAtoms < 2 ^ 63)
    (hmax₂ : -2 ^ 63 ≤ o₂.maxAtoms ∧ o₂.maxAtoms < 2 ^ 63)
    (htracers : ∀ tracer ∈ [tracer₁, tracer₂, tracer₃], tracer.file? = none) :
    SatisfiesM
      (fun runs => ∀ e₂, runs.second.result = some e₂ → e₂.cacheHit = true →
        ∃ e₁ e₃ g₁ g₂, runs.first.result = some e₁ ∧ runs.fresh.result = some e₃ ∧
          e₁.graph = some g₁ ∧ e₂.graph = some g₂ ∧
          (g₁.bindings = g₂.bindings → g₁.Distinguished o₁.maxAtoms g₂ o₂.maxAtoms →
            (∀ file ∈ runs.first.tree.filesBelow (Path.components (Path.absolute tree.workDir dir)),
              file.2.length < 2 ^ 32) →
            e₂.Repeats e₃))
      (elaborateTwice now o₁ o₂ tree tracer₁ tracer₂ tracer₃ entry parse) := by
  simp only [List.mem_cons, List.not_mem_nil, or_false, forall_eq_or_imp, forall_eq] at htracers
  obtain ⟨htracer₁, htracer₂, htracer₃⟩ := htracers
  refine (satisfiesM_follows now o₁ tree htracer₁ entry parse).bind fun first hfirst => ?_
  refine (satisfiesM_follows now o₂ first.tree htracer₂ entry parse).bind fun second hsecond => ?_
  refine (satisfiesM_follows now _ first.tree htracer₃ entry parse).bind fun fresh hfresh => ?_
  refine SatisfiesM.pure fun e₂ he₂ hhit => ?_
  -- the second run was not called off, so neither was the first one
  have hruns₂ : o₂.cancelled = false := by
    by_contra hc
    rw [Bool.not_eq_false] at hc
    simp only [RunOutcome.Follows, hc, if_true] at hsecond
    rw [hsecond.1] at he₂
    cases he₂
  obtain ⟨⟨report₂, hresult₂⟩, -⟩ := hsecond.gives hruns₂
  obtain ⟨⟨report₃, hresult₃⟩, -⟩ := hfresh.gives hruns₂
  obtain rfl := Option.some.inj (he₂.symm.trans hresult₂)
  have hruns₁ : o₁.cancelled = false := by
    by_contra hc
    rw [Bool.not_eq_false] at hc
    simp only [RunOutcome.Follows, hc, if_true] at hfirst
    obtain ⟨g₂, stored, ds, _, _, hstored⟩ := exists_of_cacheHit hhit
    rw [hfirst.2, storedFor_of_empty hcache₂ hempty] at hstored
    cases hstored
  obtain ⟨⟨report₁, hresult₁⟩, htree⟩ := hfirst.gives hruns₁
  rw [htree] at hhit he₂ hresult₂ hresult₃ ⊢
  obtain ⟨g₁, g₂, hg₁, hg₂, hrepeats⟩ :=
    repeats_of_cacheHit hcache₁ hcache₂ hempty hmax₁ hmax₂ hhit
  refine ⟨_, _, g₁, g₂, hresult₁, hresult₃, ?_, ?_, fun hbindings hdistinguished hsize => ?_⟩
  · exact (graph_findingsFor _ _ _).trans hg₁
  · exact (graph_findingsFor _ _ _).trans hg₂
  · exact hrepeats hbindings hdistinguished hsize _ _ (report₂.2.trans report₃.2.symm)

/-- A design of one module. -/
def oneModule : FileTree where
  workDir := "/"
  entries := [(["a"], .file (Bytes.ofString "modules:\n  m:\ntop: m\n"))]
  rooted := rfl

/-- Settings under which results are stored. -/
def storing : ElaborateOptions := { cache := some "c" }

/-- The files of the design once its result is stored. -/
def oneModuleStored : FileTree := filesAfter storing oneModule (loadedFor storing oneModule "a")

/-- The result of the design is stored, and loading the files again gives the same graph. -/
theorem oneModuleStored_graph :
    (loadedFor storing oneModule "a").value.graph.map (fun g =>
        (g.broken,
          (compile g (loadedFor storing oneModule "a").value.alloc storing.maxAtoms).value.isSome,
          (oneModuleStored.read (Cache.pathFor "c" (cacheKey g storing.maxAtoms))).toOption.isSome,
          g.nodes.length)) = some (false, true, true, 1) ∧
    (loadedFor storing oneModuleStored "a").value.graph.map (fun g =>
        (g.broken, g.nodes.map fun n => (n.id, n.imports))) =
      (loadedFor storing oneModule "a").value.graph.map (fun g =>
        (g.broken, g.nodes.map fun n => (n.id, n.imports))) ∧
    (loadedFor storing oneModuleStored "a").value.graph.map (·.sources.map fun file =>
        (file.path, file.content)) =
      (loadedFor storing oneModule "a").value.graph.map (·.sources.map fun file =>
        (file.path, file.content)) ∧
    ∀ file ∈ oneModuleStored.filesBelow (Path.components (Path.absolute oneModule.workDir "c")),
      file.2.length < 2 ^ 32 := by
  decide +kernel

theorem elaborate_stored_eq_fresh_one_module :
    ∃ runs e₂ e₃,
      elaborateTwice (m := Id) 0 storing storing oneModule .none .none .none "a" = runs ∧
      runs.second.result = some e₂ ∧ runs.fresh.result = some e₃ ∧ e₂.cacheHit = true ∧
      e₂.Repeats e₃ := by
  have hempty :
      oneModule.filesBelow (Path.components (Path.absolute oneModule.workDir "c")) = [] := by
    decide +kernel
  have hmax : -2 ^ 63 ≤ storing.maxAtoms ∧ storing.maxAtoms < 2 ^ 63 := by decide
  obtain ⟨hfirst, hedges, hsources, hsizes⟩ := oneModuleStored_graph
  obtain ⟨g₁, hg₁, hfacts⟩ := Option.map_eq_some_iff.mp hfirst
  rw [hg₁, Option.map_some, Option.map_eq_some_iff] at hedges
  obtain ⟨g₂, hg₂, hedges⟩ := hedges
  rw [hg₁, hg₂, Option.map_some, Option.map_some, Option.some.injEq] at hsources
  simp only [Prod.mk.injEq] at hfacts hedges
  obtain ⟨hbroken₁, hcompiled, hread, hnodes₁⟩ := hfacts
  obtain ⟨hbroken₂, hedges⟩ := hedges
  obtain ⟨p, hp⟩ := Option.isSome_iff_exists.mp hcompiled
  have hreuse : Reuse storing storing "c" oneModule "a" g₁ g₂ p :=
    ⟨rfl, rfl, rfl, rfl, hmax.2, hempty, hg₁, hbroken₁, hp, hg₂, hbroken₂.trans hbroken₁,
      ImportGraph.cacheKey_congr _ hsources, hread, hsizes⟩
  obtain ⟨e₁, e₂, report, he₁, he₂, he₃, htree, hg₁', hg₂', hhit, -⟩ := hreuse.outcome
  have hsame := SatisfiesM_Id_eq.mp (elaborate_stored_eq_fresh (m := Id) 0 storing storing "c"
    oneModule .none .none .none "a" readTree rfl rfl hempty hmax hmax (by simp))
  -- what is left is about the runs whatever they are, and nothing is to be evaluated
  generalize elaborateTwice (m := Id) 0 storing storing oneModule .none .none .none "a" = runs
    at he₁ he₂ he₃ htree hsame ⊢
  obtain ⟨e₁', e₃, g₁', g₂', he₁', he₃, hgraph₁, hgraph₂, hrepeats⟩ := hsame e₂ he₂ hhit
  cases he₁'.symm.trans he₁
  cases hgraph₁.symm.trans hg₁'
  cases hgraph₂.symm.trans hg₂'
  have hnodes₂ : g₂.nodes.length = g₁.nodes.length := by
    simpa using congrArg List.length hedges
  refine ⟨runs, e₂, e₃, rfl, he₂, he₃, hhit, hrepeats ?_ ⟨?_, ?_, ?_⟩ ?_⟩
  · exact (ImportGraph.bindings_eq_of_nodes hedges).symm
  · rw [ImportGraph.hashed_congr _ hsources]
    exact Collisionless.self _
  · rw [hnodes₁]
    decide
  · rw [hnodes₂, hnodes₁]
    decide
  · rw [htree]
    exact hsizes

/-- A design that imports two files by their places, and one of them again by a name that is looked
up in a library. -/
def twoLibraries : FileTree where
  workDir := "/"
  entries :=
    [(["a"], .file (Bytes.ofString "imports:\n  a: ./r/f\n  b: ./s/f\n  x: f\ntop: x.m\n")),
      (["r"], .directory), (["s"], .directory),
      (["r", "f"], .file (Bytes.ofString "modules:\n  m:\n")),
      (["s", "f"], .file (Bytes.ofString "modules:\n  m:\n"))]
  rooted := rfl

/-- Settings with a library, under which results are stored. -/
def withLibrary (root : String) : ElaborateOptions := { storing with libRoots := [root] }

/-- The files of the design once its result with the first library is stored. -/
def twoLibrariesStored : FileTree :=
  filesAfter (withLibrary "r") twoLibraries (loadedFor (withLibrary "r") twoLibraries "a")

/-- The result with the first library is stored.  With the second one, the files are the same, but
another module is at the top. -/
theorem twoLibrariesStored_graph :
    (loadedFor (withLibrary "r") twoLibraries "a").value.graph.map (fun g =>
        (g.broken, (compile g (loadedFor (withLibrary "r") twoLibraries "a").value.alloc
            (withLibrary "r").maxAtoms).value.map (·.top),
          (twoLibrariesStored.read
            (Cache.pathFor "c" (cacheKey g (withLibrary "r").maxAtoms))).toOption.isSome)) =
      some (false, some (.ofNumber .module_ 1), true) ∧
    (loadedFor (withLibrary "s") twoLibrariesStored "a").value.graph.map (fun g =>
        (g.broken, (compile g (loadedFor (withLibrary "s") twoLibrariesStored "a").value.alloc
            (withLibrary "s").maxAtoms).value.map (·.top))) =
      some (false, some (.ofNumber .module_ 2)) ∧
    (loadedFor (withLibrary "s") twoLibrariesStored "a").value.graph.map (·.sources.map fun file =>
        (file.path, file.content)) =
      (loadedFor (withLibrary "r") twoLibraries "a").value.graph.map (·.sources.map fun file =>
        (file.path, file.content)) ∧
    ∀ file ∈ twoLibrariesStored.filesBelow
      (Path.components (Path.absolute twoLibraries.workDir "c")), file.2.length < 2 ^ 32 := by
  decide +kernel

/-- A namespace that stands for another file leaves the key as it is, and the second run gives a
program that is not that of its own settings. -/
theorem elaborate_stored_ne_fresh :
    ∃ runs e₂ e₃, elaborateTwice (m := Id) 0 (withLibrary "r") (withLibrary "s") twoLibraries
        .none .none .none "a" = runs ∧
      runs.second.result = some e₂ ∧ runs.fresh.result = some e₃ ∧ e₂.cacheHit = true ∧
      ¬ e₂.Repeats e₃ := by
  have hempty : twoLibraries.filesBelow
      (Path.components (Path.absolute twoLibraries.workDir "c")) = [] := by
    decide +kernel
  obtain ⟨hfirst, hsecond, hsources, hsizes⟩ := twoLibrariesStored_graph
  obtain ⟨g₁, hg₁, hfacts₁⟩ := Option.map_eq_some_iff.mp hfirst
  obtain ⟨g₂, hg₂, hfacts₂⟩ := Option.map_eq_some_iff.mp hsecond
  rw [hg₁, hg₂, Option.map_some, Option.map_some, Option.some.injEq] at hsources
  simp only [Prod.mk.injEq] at hfacts₁ hfacts₂
  obtain ⟨hbroken₁, hcompiled₁, hread⟩ := hfacts₁
  obtain ⟨hbroken₂, hcompiled₂⟩ := hfacts₂
  obtain ⟨p, hp, hptop⟩ := Option.map_eq_some_iff.mp hcompiled₁
  obtain ⟨q, hq, hqtop⟩ := Option.map_eq_some_iff.mp hcompiled₂
  have hreuse : Reuse (withLibrary "r") (withLibrary "s") "c" twoLibraries "a" g₁ g₂ p :=
    ⟨rfl, rfl, rfl, rfl, by decide, hempty, hg₁, hbroken₁, hp, hg₂, hbroken₂,
      ImportGraph.cacheKey_congr _ hsources, hread, hsizes⟩
  obtain ⟨e₁, e₂, report, -, he₂, he₃, -, -, -, hhit, hprogram⟩ := hreuse.outcome
  refine ⟨_, e₂, _, rfl, he₂, he₃, hhit, fun hrepeats => ?_⟩
  have hstale := hrepeats.program
  rw [hreuse.program_fresh rfl hq report, Option.map_some] at hstale
  have htop := congrArg Program.top (hprogram _ hstale)
  change q.top = p.top at htop
  rw [hptop, hqtop] at htop
  exact absurd htop (by decide)

end Netlist
