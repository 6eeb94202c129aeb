import Netlist.Proofs.Import.Search

/-!
# Where the parts of loaded files stand

The files of a search are numbered in order and stay in its set.  So whatever region all files of
the last set lie in, everything that was reported on the way lies in it, and so do the documents of
all nodes (`Lands`).  As this speaks of the last set, no region is carried from one set to the next.

Symbols are made of the definitions of documents, and there is one table for each file of a document
(`ensures_declareAll`).
-/

namespace Netlist

open Diagnostic (Proper)

/-- The files have the numbers of their places. -/
def FileSet.Numbered (fs : FileSet) : Prop :=
  ∀ (k : Nat) (f : SourceFile), fs.files[k]? = some f → f.id = UInt32.ofNat k

/-- No file holds a span outside of the region. -/
def FileSet.Within (r : Region) (fs : FileSet) : Prop := ∀ f ∈ fs.files, ∀ s, f.Holds s → s ∈ r

theorem FileSet.within_region (fs : FileSet) : fs.Within fs.region :=
  fun f hf _ hs => .inr ⟨f, hf, hs⟩

/-- A new file gets the next number. -/
theorem FileSet.Numbered.add {fs : FileSet} (h : fs.Numbered) (path : String) (content : Bytes)
    (flags : FileFlags) : (fs.add path content flags).2.Numbered := by
  intro k f hf
  simp only [FileSet.add, Array.getElem?_push] at hf
  split at hf
  · next hk =>
    cases hf
    rw [hk]
    rfl
  · exact h k f hf

/-! ## Symbols -/

/-- All parts of a definition are in the region. -/
def Definition.Within (r : Region) : Definition → Prop
  | module_ m => m.Within r
  | device d => d.Within r

theorem Definition.Within.name {r : Region} {d : Definition} (h : d.Within r) :
    d.name.span ∈ r := by
  cases d with
  | module_ m => exact ModuleDecl.Within.name h
  | device d => exact DeviceDecl.Within.name h

/-- All symbols are in the region. -/
def SymbolBase.Within (r : Region) (b : SymbolBase) : Prop :=
  ∀ t ∈ b.tables, ∀ s ∈ t.symbols, s.definition.Within r

theorem SymbolBase.ensures_declare {r : Region} (file : FileId) (definitions : List Definition) :
    (∀ d ∈ definitions, d.Within r) → ∀ (before : List Symbol) (alloc : Allocator),
      (∀ s ∈ before, s.definition.Within r) →
        (declare file before alloc definitions).Ensures (Proper r) fun p =>
          ∀ s ∈ p.1, s.definition.Within r := by
  induction definitions with
  | nil =>
      intro _ before alloc hbefore
      exact Logged.ensures_pure hbefore
  | cons d definitions ih =>
      intro hdefinitions before alloc hbefore
      obtain ⟨hd, hrest⟩ := List.forall_mem_cons.mp hdefinitions
      rw [declare]
      dsimp only
      have hnext : ∀ s : Symbol, s.definition = d → ∀ alloc,
          (declare file (before ++ [s]) alloc definitions).Ensures (Proper r) fun p =>
            ∀ s ∈ p.1, s.definition.Within r := by
        rintro s rfl alloc
        exact ih hrest _ alloc (List.forall_mem_append.mpr
          ⟨hbefore, List.forall_mem_singleton.mpr hd⟩)
      split
      · next first hfirst =>
        have hfirst := (hbefore first (List.mem_of_find?_eq_some hfirst)).name
        exact (Logged.ensures_report (Q := fun _ => True) (Diagnostic.proper_error hd.name
          (List.forall_mem_singleton.mpr hfirst) (by decide)) trivial).bind
            fun _ _ => hnext _ rfl _
      · exact hnext _ rfl _

/-- A table for each file of a document, and no others. -/
def SymbolBase.Tables (b : SymbolBase) (documents : List Document) : Prop :=
  ∀ file, (b.table? file).isSome = true ↔ ∃ d ∈ documents, d.file = file

theorem SymbolBase.table?_append (b : SymbolBase) (t : SymbolTable) (file : FileId) :
    ((⟨b.tables ++ [t]⟩ : SymbolBase).table? file).isSome = true ↔
      (b.table? file).isSome = true ∨ t.file = file := by
  simp [table?]

/-- The symbols of a document are in the region, and its file has a table. -/
theorem SymbolBase.ensures_add {r : Region} {b : SymbolBase} {before : List Document}
    {d : Document} (hb : b.Within r) (htables : b.Tables before) (hd : d.Within r)
    (alloc : Allocator) : (b.add alloc d).Ensures (Proper r) fun p =>
      p.1.Within r ∧ p.1.Tables (before ++ [d]) := by
  unfold add
  split
  · next htable =>
    refine Logged.ensures_pure ⟨hb, fun file => ?_⟩
    rw [htables file]
    constructor
    · rintro ⟨x, hx, rfl⟩
      exact ⟨x, List.mem_append_left _ hx, rfl⟩
    · rintro ⟨x, hx, rfl⟩
      rcases List.mem_append.mp hx with hx | hx
      · exact ⟨x, hx, rfl⟩
      · rw [List.mem_singleton.mp hx]
        exact (htables d.file).mp htable
  · have hdefinitions : ∀ x ∈ d.modules.map Definition.module_ ++ d.devices.map Definition.device,
        x.Within r := by
      refine List.forall_mem_append.mpr ⟨fun x hx => ?_, fun x hx => ?_⟩
      · obtain ⟨m, hm, rfl⟩ := List.mem_map.mp hx
        exact hd.modules m hm
      · obtain ⟨v, hv, rfl⟩ := List.mem_map.mp hx
        exact hd.devices v hv
    refine (ensures_declare d.file _ hdefinitions [] alloc (by simp)).bind fun p hp => ?_
    refine Logged.ensures_pure ⟨?_, fun file => ?_⟩
    · exact List.forall_mem_append.mpr ⟨hb, List.forall_mem_singleton.mpr hp⟩
    · rw [table?_append, htables file]
      simp [or_and_right, exists_or]

/-- Documents and symbols are in the region and belong together. -/
structure SymbolBase.Joins (r : Region) (b : SymbolBase) (ds : List Document) : Prop where
  documents : ∀ d ∈ ds, d.Within r
  symbols : b.Within r
  tables : b.Tables ds

/-! ## The search -/

namespace Import

theorem ImportProblem.proper_at {r : Region} {span : Span} (hspan : span ∈ r) (p : ImportProblem) :
    (p.at_ span).Proper r := by
  refine Diagnostic.proper_error hspan (fun n hn => ?_) ?_
  · cases p with
    | ambiguous path candidates =>
        obtain ⟨c, _, rfl⟩ := List.mem_map.mp hn
        exact r.nowhere
    | _ => cases hn
  · cases p <;> simp only [ImportProblem.code] <;> decide

/-- The documents of all nodes are in the region. -/
def Search.Within (r : Region) (s : Search) : Prop := ∀ n ∈ s.nodes, n.document.Within r

/-- From a state, a step of the search keeps the files and their numbers.  In a region that holds
the files at the end and where `H` holds, it reports what is proper, and the documents stay in
it. -/
structure Lands {α : Type} (H : Region → Prop) (s : Search) (y : Logged (α × Search))
    (Q : Region → α → Prop) : Prop where
  keeps : ∀ f ∈ s.files.files, f ∈ y.value.2.files.files
  numbered : s.files.Numbered → y.value.2.files.Numbered
  within : ∀ {r}, H r → y.value.2.files.Within r → s.Within r →
    y.Reports (Proper r) ∧ y.value.2.Within r ∧ Q r y.value.1

section Lands

variable {α β : Type} {H : Region → Prop} {s : Search} {Q : Region → α → Prop}
  {R : Region → β → Prop}

/-- A step that loads nothing. -/
theorem lands_of_eq {a : α} {s' : Search} {log : List Diagnostic} (hfiles : s'.files = s.files)
    (hnodes : s'.nodes = s.nodes) (h : ∀ r, H r → (∀ d ∈ log, d.Proper r) ∧ Q r a) :
    Lands H s ⟨(a, s'), log⟩ Q := by
  refine ⟨fun f hf => ?_, fun hs => ?_, ?_⟩
  · rw [hfiles]
    exact hf
  · rw [hfiles]
    exact hs
  · intro r hr _ hs
    refine ⟨(h r hr).1, ?_, (h r hr).2⟩
    rw [Search.Within, hnodes]
    exact hs

/-- Two steps in a row.  The files at the end include those in between, so a region that holds the
former holds the latter. -/
theorem Lands.andThen {y : Logged (α × Search)} {z : Logged (β × Search)} (hy : Lands H s y Q)
    (hz : Lands (fun r => H r ∧ Q r y.value.1) y.value.2 z R) :
    Lands H s ⟨z.value, y.log ++ z.log⟩ R := by
  refine ⟨fun f hf => hz.keeps f (hy.keeps f hf), fun hs => hz.numbered (hy.numbered hs), ?_⟩
  intro r hr hfiles hs
  obtain ⟨hreports, hwithin, hQ⟩ := hy.within hr (fun f hf => hfiles f (hz.keeps f hf)) hs
  obtain ⟨hreports', hwithin', hR⟩ := hz.within ⟨hr, hQ⟩ hfiles hwithin
  exact ⟨List.forall_mem_append.mpr ⟨hreports, hreports'⟩, hwithin', hR⟩

theorem Lands.mono {y : Logged (α × Search)} {H' : Region → Prop} (h : Lands H s y Q)
    (hH : ∀ r, H' r → H r) : Lands H' s y Q :=
  ⟨h.keeps, h.numbered, fun hr => h.within (hH _ hr)⟩

end Lands

/-- A loaded file has its spans in the region of the files. -/
theorem lands_load (parse : TreeParser) (path : String) (content : Bytes) (s : Search) :
    Lands (fun _ => True) s (load parse path content s) fun r n => n.document.Within r := by
  refine ⟨fun f hf => Array.mem_push_of_mem _ hf, fun hs => hs.add _ _ _, ?_⟩
  intro r _ hfiles hs
  have hdocument : (Document.decode (.of (UInt32.ofNat s.files.files.size) path
      (normalize content).1 (normalize content).2) parse).Ensures (Proper r) (Document.Within r) :=
    Document.ensures_decode (fun span p => DocumentProblem.proper_at)
      (hfiles _ Array.mem_push_self) parse
  refine ⟨hdocument.reports.bind fun _ => Logged.reports_pure _, ?_, hdocument.result⟩
  exact List.forall_mem_append.mpr ⟨hs, List.forall_mem_singleton.mpr hdocument.result⟩

theorem proper_repeats {r : Region} (before : List Target) {x : Target}
    (hx : x.entry.key.span ∈ r) : ∀ d ∈ repeats before x, d.Proper r := by
  intro d hd
  obtain ⟨first, _, rfl⟩ := Option.map_eq_some_iff.mp (Option.mem_toList.mp hd)
  exact Diagnostic.proper_warning hx (by simp) (by decide)

/-- Imports are followed in order, each from the files loaded so far. -/
theorem lands_follow {next : String → Span → SearchM (Option FileId)}
    (hnext : ∀ path from_ s, Lands (from_ ∈ ·) s (next path from_ s) fun _ _ => True)
    (ts : List Target) : ∀ (before : List Target) (s : Search),
      Lands (fun r => ∀ x ∈ ts, x.entry.key.span ∈ r ∧ x.entry.value.span ∈ r) s
        (follow next before ts s) fun _ _ => True := by
  induction ts with
  | nil =>
      intro before s
      exact lands_of_eq rfl rfl fun r _ => ⟨by simp, trivial⟩
  | cons x ts ih =>
      intro before s
      have hrepeats : Lands
          (fun r => ∀ y ∈ x :: ts, y.entry.key.span ∈ r ∧ y.entry.value.span ∈ r) s
          ⟨((), s), repeats before x⟩ fun _ _ => True :=
        lands_of_eq rfl rfl fun r hr =>
          ⟨proper_repeats before (hr x (List.mem_cons_self ..)).1, trivial⟩
      have hchild : Lands
          (fun r => (∀ y ∈ x :: ts, y.entry.key.span ∈ r ∧ y.entry.value.span ∈ r) ∧ True) s
          (next x.path x.entry.value.span s) fun _ _ => True :=
        (hnext x.path x.entry.value.span s).mono fun r hr => (hr.1 x (List.mem_cons_self ..)).2
      cases hcyclic : (next x.path x.entry.value.span s).value.2.cyclic with
      | true =>
          rw [follow_cons_cyclic hcyclic]
          have hboth := hrepeats.andThen hchild
          exact ⟨hboth.keeps, hboth.numbered, hboth.within⟩
      | false =>
          rw [follow_cons hcyclic]
          have hall := hrepeats.andThen (hchild.andThen ((ih (before ++ [x]) _).mono
            fun r hr y hy => hr.1.1 y (List.mem_cons_of_mem _ hy)))
          exact ⟨hall.keeps, hall.numbered, hall.within⟩

theorem files_readAhead (s : Search) (ts : List Target) : (s.readAhead ts).files = s.files := by
  obtain ⟨ahead, hahead⟩ := readAhead_eq s ts
  rw [hahead]

theorem nodes_readAhead (s : Search) (ts : List Target) : (s.readAhead ts).nodes = s.nodes := by
  obtain ⟨ahead, hahead⟩ := readAhead_eq s ts
  rw [hahead]

/-- Leaving a file changes no document. -/
theorem Search.Within.leave {r : Region} {s : Search} (h : s.Within r) (path : String)
    (edges : List ImportEdge) : (s.leave path edges).Within r := by
  intro n hn
  obtain ⟨m, hm, rfl⟩ := List.mem_map.mp hn
  split
  · exact h m hm
  · exact h m hm

/-- A visit reports at the import that led to the file, or inside it. -/
theorem lands_visitWith {read : Reading} {t : FileTree} {roots : List String}
    {deeper : List String → String → Span → SearchM (Option FileId)}
    (hdeeper : ∀ stack path from_ s,
      Lands (from_ ∈ ·) s (deeper stack path from_ s) fun _ _ => True)
    (stack : List String) (path : String) (from_ : Span) (s : Search) :
    Lands (from_ ∈ ·) s (visitWith read t roots deeper stack path from_ s) fun _ _ => True := by
  by_cases hon : path ∈ stack
  · rw [visitWith_onStack hon]
    exact lands_of_eq rfl rfl fun r hr =>
      ⟨List.forall_mem_singleton.mpr (ImportProblem.proper_at hr _), trivial⟩
  cases hnode : s.node? path with
  | some node =>
      rw [visitWith_loaded hon hnode]
      exact lands_of_eq rfl rfl fun r _ => ⟨by simp, trivial⟩
  | none =>
      cases hread : read.content (s.metAt path) path with
      | error e =>
          rw [visitWith_unreadable hon hnode hread]
          exact lands_of_eq rfl rfl fun r hr =>
            ⟨List.forall_mem_singleton.mpr (ImportProblem.proper_at hr _), trivial⟩
      | ok content =>
          rw [visitWith_readable hon hnode hread]
          dsimp only
          generalize hloaded : load read.parse path content (s.take path) = loaded
          generalize hfound :
            targets t roots (Path.dir path) loaded.value.1.document.imports = found
          have hload : Lands (from_ ∈ ·) s loaded fun r n => n.document.Within r := by
            rw [← hloaded]
            have h := lands_load read.parse path content (s.take path)
            exact ⟨h.keeps, h.numbered, fun _ => h.within trivial⟩
          have htargets : Lands (fun r => from_ ∈ r ∧ loaded.value.1.document.Within r)
              loaded.value.2 ⟨(found.value, loaded.value.2.readAhead found.value), found.log⟩
              fun r ts => ∀ x ∈ ts, x.entry.key.span ∈ r ∧ x.entry.value.span ∈ r := by
            refine lands_of_eq (files_readAhead _ _) (nodes_readAhead _ _) fun r hr => ?_
            have h : found.Ensures (Proper r) fun ts =>
                ∀ x ∈ ts, x.entry.key.span ∈ r ∧ x.entry.value.span ∈ r := by
              rw [← hfound]
              exact ensures_targets (Path.dir path)
                (fun span p hspan _ => ImportProblem.proper_at hspan p) _ hr.2.imports
            exact ⟨h.reports, h.result⟩
          have hall := hload.andThen (htargets.andThen ((lands_follow (hdeeper (stack ++ [path]))
            found.value [] _).mono fun r hr => hr.2))
          refine ⟨hall.keeps, hall.numbered, ?_⟩
          intro r hr hfiles hs
          obtain ⟨hreports, hwithin, _⟩ := hall.within hr hfiles hs
          exact ⟨hreports, hwithin.leave _ _, trivial⟩

/-- By induction on the depth. -/
theorem lands_visit (read : Reading) (t : FileTree) (roots : List String) (fuel : Nat) :
    ∀ (stack : List String) (path : String) (from_ : Span) (s : Search),
      Lands (from_ ∈ ·) s (visit read t roots fuel stack path from_ s) fun _ _ => True := by
  induction fuel with
  | zero =>
      intro stack path from_ s
      exact lands_of_eq rfl rfl fun r _ => ⟨by simp, trivial⟩
  | succ fuel ih => exact lands_visitWith ih

theorem ensures_declareAll {r : Region} (documents : List Document) :
    (∀ d ∈ documents, d.Within r) → ∀ (before : List Document) (b : SymbolBase) (alloc : Allocator),
      b.Within r → b.Tables before → (declareAll b alloc documents).Ensures (Proper r) fun p =>
        p.1.Within r ∧ p.1.Tables (before ++ documents) := by
  induction documents with
  | nil =>
      intro _ before b alloc hb htables
      rw [List.append_nil]
      exact Logged.ensures_pure ⟨hb, htables⟩
  | cons d documents ih =>
      intro hdocuments before b alloc hb htables
      obtain ⟨hd, hdocuments⟩ := List.forall_mem_cons.mp hdocuments
      rw [List.append_cons]
      exact (SymbolBase.ensures_add hb htables hd alloc).bind fun p hp =>
        ih hdocuments _ p.1 p.2 hp.1 hp.2

/-! ## Graphs -/

section Resolve

variable (read : Reading) (t : FileTree) (roots : List String) (files : FileSet) (alloc : Allocator)
  (entry : String)

/-- In a region that holds the files that were loaded, loading reports what is proper, and the graph
is in it. -/
theorem ensures_resolveWith {r : Region}
    (hfiles : (resolveWith read t roots files alloc entry).value.files.Within r) :
    (resolveWith read t roots files alloc entry).Ensures (Proper r) fun res =>
      ∀ g, res.graph = some g → g.symbols.Joins r g.documents := by
  have hsearch := lands_visit read t roots (t.entries.length + 1) []
    (Path.absolute t.workDir entry) Span.nowhere { files := files }
  have hempty : Search.Within r { files := files } := by
    intro n hn
    cases hn
  unfold resolveWith at hfiles ⊢
  dsimp only at hfiles ⊢
  split at hfiles
  · next hcyclic =>
    rw [if_pos hcyclic]
    refine ⟨(hsearch.within r.nowhere hfiles hempty).1, ?_⟩
    intro g hg
    cases hg
  · next hcyclic =>
    rw [if_neg hcyclic]
    obtain ⟨hreports, hwithin, _⟩ := hsearch.within r.nowhere hfiles hempty
    have hdocuments : ∀ d ∈ (visit read t roots (t.entries.length + 1) []
        (Path.absolute t.workDir entry) Span.nowhere { files := files }).value.2.nodes.map
          (·.document), d.Within r := by
      intro d hd
      obtain ⟨n, hn, rfl⟩ := List.mem_map.mp hd
      exact hwithin n hn
    have hdeclared := ensures_declareAll _ hdocuments [] {} alloc (by simp [SymbolBase.Within])
      (by simp [SymbolBase.Tables, SymbolBase.table?])
    refine ⟨List.forall_mem_append.mpr ⟨hreports, hdeclared.reports⟩, ?_⟩
    intro g hg
    cases hg
    exact ⟨hdocuments, hdeclared.result.1, hdeclared.result.2⟩

/-- The files of a result have their places as numbers. -/
theorem numbered_resolveWith (hfiles : files.Numbered) :
    (resolveWith read t roots files alloc entry).value.files.Numbered := by
  have hsearch := lands_visit read t roots (t.entries.length + 1) []
    (Path.absolute t.workDir entry) Span.nowhere { files := files }
  unfold resolveWith
  dsimp only
  split
  · exact hsearch.numbered hfiles
  · exact hsearch.numbered hfiles

end Resolve

end Import

end Netlist
