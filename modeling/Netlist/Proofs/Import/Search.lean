import Netlist.Proofs.Import.Relation

/-!
# The search for files

What one visit does is told by four equations: the file is on the stack and closes a cycle,
it is loaded already, it cannot be read, or it is new.  `Search.WellFormed` is what holds
between visits as long as no cycle was met: the files on the stack are being followed, and
every other loaded file is `Settled`, so its edges are final and no chain of imports from it
goes on forever.  A file goes off the stack when all its imports are settled, which is why no
cycle can hide behind a file that was loaded before.

`visitWith_spec` says what one visit does when the visits further down do the same, and
`iterate_visitWith_spec` says it of the whole search.  An import may lead to a file that cannot
be read; its visit changes nothing.  The files on the stack are pairwise distinct readable
files (`Trail`), so there is a depth that no search exceeds (`iterate_visitWith_congr`).
-/

namespace Netlist.Import

open Relation (ReflTransGen TransGen)

/-! ## One visit -/

section Equations

variable {read : Reading} {t : FileTree} {roots : List String} {stack : List String}
  {deeper : List String → String → Span → SearchM (Option FileId)} {path : String} {from_ : Span}
  {s : Search}

theorem get_bind {α : Type} (f : Search → SearchM α) (s : Search) : (get >>= f) s = f s s := rfl

theorem visitWith_onStack (h : path ∈ stack) :
    visitWith read t roots deeper stack path from_ s =
      ⟨(none, { s with cyclic := true }),
        [(ImportProblem.cycle
          ((stack.dropWhile (· != path) ++ [path]).map s.shownPath)).at_ from_]⟩ := by
  have h' : stack.contains path = true := by simpa using h
  unfold visitWith
  rw [get_bind, if_pos h']
  rfl

theorem visitWith_loaded (h : path ∉ stack) {node : FileNode} (hn : s.node? path = some node) :
    visitWith read t roots deeper stack path from_ s = ⟨(some node.id, s), []⟩ := by
  have h' : ¬ stack.contains path = true := by simpa using h
  unfold visitWith
  rw [get_bind, if_neg h', hn]
  rfl

theorem visitWith_unreadable (h : path ∉ stack) (hn : s.node? path = none) {e : FileError}
    (hr : read.content (s.metAt path) path = .error e) :
    visitWith read t roots deeper stack path from_ s =
      ⟨(none, s.take path),
        [(if e.fault == .notFound then ImportProblem.fileMissing path else .unreadable path e).at_
          from_]⟩ := by
  have h' : ¬ stack.contains path = true := by simpa using h
  unfold visitWith
  rw [get_bind, if_neg h', hn]
  simp only [hr]
  split <;> rfl

theorem visitWith_readable (h : path ∉ stack) (hn : s.node? path = none) {content : Bytes}
    (hr : read.content (s.metAt path) path = .ok content) :
    visitWith read t roots deeper stack path from_ s =
      let loaded := load read.parse path content (s.take path)
      let found := targets t roots (Path.dir path) loaded.value.1.document.imports
      let followed := follow (deeper (stack ++ [path])) [] found.value
        (loaded.value.2.readAhead found.value)
      ⟨(some loaded.value.1.id, followed.value.2.leave path followed.value.1),
        loaded.log ++ (found.log ++ followed.log)⟩ := by
  have h' : ¬ stack.contains path = true := by simpa using h
  unfold visitWith
  rw [get_bind, if_neg h', hn]
  simp only [hr]
  ext1
  · simp only [Logged.value_bind_run, Logged.set_run, Logged.liftM_run, Logged.modify_run,
      Logged.pure_run]
  · simp only [Logged.log_bind_run, Logged.set_run, Logged.liftM_run, Logged.modify_run,
      Logged.pure_run, List.nil_append, List.append_nil]

variable {next : String → Span → SearchM (Option FileId)} {before rest : List Target} {x : Target}

/-- The warning for an import whose file is imported before. -/
def repeats (before : List Target) (x : Target) : List Diagnostic :=
  ((before.find? (·.path == x.path)).map fun first =>
    sameTarget x.entry.key first.entry.key.text).toList

theorem follow_nil : follow next before [] s = ⟨([], s), []⟩ := rfl

theorem follow_cons_cyclic (h : (next x.path x.entry.value.span s).value.2.cyclic = true) :
    follow next before (x :: rest) s =
      ⟨([], (next x.path x.entry.value.span s).value.2),
        repeats before x ++ (next x.path x.entry.value.span s).log⟩ := by
  rw [follow, repeats]
  cases before.find? (·.path == x.path) <;>
  · ext1
    · simp [Logged.value_bind_run, Logged.get_run, Logged.pure_run, h]
    · simp [Logged.log_bind_run, Logged.get_run, Logged.pure_run, h]

theorem follow_cons (h : (next x.path x.entry.value.span s).value.2.cyclic = false) :
    follow next before (x :: rest) s =
      let child := next x.path x.entry.value.span s
      let followed := follow next (before ++ [x]) rest child.value.2
      let edge := child.value.1.map fun id => ⟨x.entry.key.text, id, x.entry.key.span⟩
      ⟨(edge.toList ++ followed.value.1, followed.value.2),
        repeats before x ++ (child.log ++ followed.log)⟩ := by
  rw [follow, repeats]
  cases before.find? (·.path == x.path) <;>
  · ext1
    · cases hchild : (next x.path x.entry.value.span s).value.1 <;>
        simp [Logged.value_bind_run, Logged.value_map_run, Logged.get_run, h, hchild]
    · cases hchild : (next x.path x.entry.value.span s).value.1 <;>
        simp [Logged.log_bind_run, Logged.log_map_run, Logged.get_run, h, hchild]

end Equations

variable {parse : TreeParser} {t : FileTree} {roots : List String} {start : FileSet}
  {entry : String}

/-! ## What is loaded -/

/-- The numbers of files by their paths. -/
def numbers (nodes : List FileNode) : List (String × FileId) := nodes.map fun n => (n.path, n.id)

/-- The edges of a file: one for each of its valid imports whose file has a number, in the
order of their declaration. -/
def edgesOf (t : FileTree) (roots : List String) (numbers : List (String × FileId))
    (n : FileNode) : List ImportEdge :=
  n.document.imports.filterMap fun e =>
    (targetFile t roots (Path.dir n.path) e.texts).bind fun file =>
      (numbers.lookup file).map fun id => ⟨e.key.text, id, e.key.span⟩

/-- A node is what is at its path, under the number `k`. -/
structure LoadedAs (parse : TreeParser) (t : FileTree) (files : FileSet) (k : Nat)
    (n : FileNode) : Prop where
  id_eq : n.id = UInt32.ofNat k
  source : ∃ file, sourceAt t n.id n.path = some file ∧ files.files[k]? = some file ∧
    n.document = (Document.decode file parse).value

/-- All imports of a node were followed, and none of them leads into a cycle. -/
structure Settled (parse : TreeParser) (t : FileTree) (roots : List String)
    (numbers : List (String × FileId)) (n : FileNode) : Prop where
  numbered : ∀ b ∈ importedFiles parse t roots n.path, b ∈ numbers.map (·.1)
  edges : n.imports = edgesOf t roots numbers n
  acc : Acc (fun b a => Imports parse t roots a b) n.path

/-- The search is on the way, with no cycle met: the files on the stack are loaded, and all
other loaded files are settled. -/
structure Search.WellFormed (parse : TreeParser) (t : FileTree) (roots : List String)
    (start : FileSet) (stack : List String) (s : Search) : Prop where
  open_ : s.cyclic = false
  workDir : s.files.workDir = start.workDir
  base : s.files.base = start.base
  size : s.files.size = start.size + s.nodes.length
  loaded : ∀ k n, s.nodes[k]? = some n → LoadedAs parse t s.files (start.size + k) n
  nodup : (s.nodes.map (·.path)).Nodup
  stack_subset : stack ⊆ s.nodes.map (·.path)
  settled : ∀ n ∈ s.nodes, n.path ∉ stack → Settled parse t roots (numbers s.nodes) n

theorem map_fst_numbers (nodes : List FileNode) :
    (numbers nodes).map (·.1) = nodes.map (·.path) := by
  simp [numbers]

theorem lookup_numbers (path : String) : ∀ nodes : List FileNode,
    (numbers nodes).lookup path = (nodes.find? (·.path == path)).map (·.id)
  | [] => rfl
  | n :: nodes => by
      have ih := lookup_numbers path nodes
      unfold numbers at ih ⊢
      rw [List.map_cons, List.lookup_cons, List.find?_cons, ih, BEq.comm]
      cases n.path == path <;> rfl

variable {stack : List String} {path : String} {log : List Diagnostic} {log₁ log₂ : List Diagnostic}
  {file : SourceFile} {s : Search} {edges : List ImportEdge} {n : FileNode}

theorem importsAt_of_loadedAs {files : FileSet} {k : Nat} (h : LoadedAs parse t files k n) :
    n.document.importTexts = importsAt parse t n.path := by
  obtain ⟨file, hsource, _, hdoc⟩ := h.source
  rw [hdoc]
  exact importTexts_of_sourceAt hsource

/-- All loaded files can be read. -/
theorem Search.WellFormed.readable (hs : s.WellFormed parse t roots start stack) :
    ∀ p ∈ s.nodes.map (·.path), t.Readable p := by
  intro p hp
  obtain ⟨n, hn, rfl⟩ := List.mem_map.mp hp
  obtain ⟨k, hk⟩ := List.mem_iff_getElem?.mp hn
  obtain ⟨file, hsource, _⟩ := (hs.loaded k n hk).source
  exact readable_of_sourceAt hsource

/-- The files that the imports of a file lead to. -/
theorem map_path_targets (parse : TreeParser) (roots : List String) {id : FileId}
    (h : sourceAt t id path = some file) :
    (targets t roots (Path.dir path) (Document.decode file parse).value.imports).value.map
      (·.path) = targetFiles parse t roots path := by
  rw [value_targets, targetFiles, ← importTexts_of_sourceAt h, Document.importTexts,
    List.map_filterMap, List.filterMap_map]
  refine List.filterMap_congr fun e _ => ?_
  cases htarget : targetFile t roots (Path.dir path) e.texts <;> simp [htarget]

theorem edgesOf_eq_filterMap_targets (numbers : List (String × FileId)) (n : FileNode) :
    edgesOf t roots numbers n =
      (targets t roots (Path.dir n.path) n.document.imports).value.filterMap fun x =>
        (numbers.lookup x.path).map fun id => ⟨x.entry.key.text, id, x.entry.key.span⟩ := by
  rw [value_targets, List.filterMap_filterMap, edgesOf]
  refine List.filterMap_congr fun e _ => ?_
  cases htarget : targetFile t roots (Path.dir n.path) e.texts with
  | none => rfl
  | some file => rfl

/-- A number once given stays. -/
theorem lookup_append_of_mem {numbers new : List (String × FileId)}
    (h : path ∈ new.map (·.1) → path ∈ numbers.map (·.1)) :
    (numbers ++ new).lookup path = numbers.lookup path := by
  rw [List.lookup_append]
  cases hlookup : numbers.lookup path with
  | some id => rfl
  | none =>
      have hold : path ∉ numbers.map (·.1) := by
        rintro hmem
        obtain ⟨e, he, rfl⟩ := List.mem_map.mp hmem
        simpa using List.lookup_eq_none_iff.mp hlookup e he
      have hnew : new.lookup path = none := by
        refine List.lookup_eq_none_iff.mpr fun e he => bne_iff_ne.mpr ?_
        rintro rfl
        exact hold (h (List.mem_map_of_mem he))
      rw [hnew]
      rfl

/-- More loaded files leave a settled one settled. -/
theorem Settled.append {numbers new : List (String × FileId)}
    (h : Settled parse t roots numbers n) (hdoc : n.document.importTexts = importsAt parse t n.path)
    (hnew : ∀ p ∈ new.map (·.1), t.Readable p) : Settled parse t roots (numbers ++ new) n where
  numbered b hb := by
    rw [List.map_append]
    exact List.mem_append_left _ (h.numbered b hb)
  edges := by
    rw [h.edges]
    refine List.filterMap_congr fun e he => ?_
    cases htarget : targetFile t roots (Path.dir n.path) e.texts with
    | none => rfl
    | some file =>
        have hfile : file ∈ targetFiles parse t roots n.path := by
          rw [targetFiles, ← hdoc]
          exact List.mem_filterMap.mpr ⟨e.texts, List.mem_map_of_mem he, htarget⟩
        rw [Option.bind_some, Option.bind_some, lookup_append_of_mem fun hmem =>
          h.numbered file (mem_importedFiles_iff.mpr ⟨hfile, hnew file hmem⟩)]
  acc := h.acc

theorem lookup_of_mem {nodes : List FileNode} (h : (nodes.map (·.path)).Nodup)
    (hn : n ∈ nodes) : (numbers nodes).lookup n.path = some n.id := by
  rw [lookup_numbers]
  cases hfind : nodes.find? (·.path == n.path) with
  | none =>
      have := List.find?_eq_none.mp hfind n hn
      simp at this
  | some m =>
      have hpath : m.path = n.path := by simpa using List.find?_some hfind
      rw [List.inj_on_of_nodup_map h (List.mem_of_find?_eq_some hfind) hn hpath]
      rfl

theorem isSome_node? :
    (s.node? path).isSome ↔ path ∈ s.nodes.map (·.path) := by
  simp [Search.node?, List.find?_isSome]

theorem node?_eq_none :
    s.node? path = none ↔ path ∉ s.nodes.map (·.path) := by
  rw [← isSome_node?, Bool.not_eq_true, Option.isSome_eq_false_iff, Option.isNone_iff_eq_none]

/-! ## Entering and leaving a file -/

/-- The node of a file whose imports were not yet followed. -/
def unfollowed (parse : TreeParser) (path : String) (file : SourceFile) : FileNode :=
  { id := file.id, path := path, document := (Document.decode file parse).value }

theorem id_of_sourceAt {id : FileId} (h : sourceAt t id path = some file) : file.id = id := by
  unfold sourceAt at h
  split at h
  · cases h
  · cases h
    rfl

theorem load_eq {content : Bytes} (parse : TreeParser) (hread : t.read path = .ok content)
    (s : Search) :
    ∃ file visits, sourceAt t (UInt32.ofNat s.files.size) path = some file ∧
      load parse path content s =
        ⟨(unfollowed parse path file,
          { s with
            files := { s.files with files := s.files.files.push file }
            nodes := s.nodes ++ [unfollowed parse path file]
            visits := visits }),
          (Document.decode file parse).log⟩ := by
  refine ⟨_, (load parse path content s).value.2.visits, by rw [sourceAt, hread], ?_⟩
  ext1
  · rfl
  · exact List.append_nil _

theorem readAhead_eq (s : Search) (ts : List Target) :
    ∃ ahead, s.readAhead ts = { s with ahead := ahead } := by
  unfold Search.readAhead
  dsimp only
  split
  · exact ⟨s.ahead, rfl⟩
  · exact ⟨_, rfl⟩

/-- A file that is loaded goes on the stack. -/
theorem Search.WellFormed.enter {s s' : Search} (hs : s.WellFormed parse t roots start stack)
    (hnew : path ∉ s.nodes.map (·.path))
    (hfile : sourceAt t (UInt32.ofNat s.files.size) path = some file)
    (hcyclic : s'.cyclic = s.cyclic)
    (hfiles : s'.files = { s.files with files := s.files.files.push file })
    (hnodes : s'.nodes = s.nodes ++ [unfollowed parse path file]) :
    s'.WellFormed parse t roots start (stack ++ [path]) where
  open_ := hcyclic.trans hs.open_
  workDir := by rw [hfiles, ← hs.workDir]
  base := by rw [hfiles, ← hs.base]
  size := by
    have := hs.size
    simp only [FileSet.size] at this ⊢
    simp [hfiles, hnodes, this, Nat.add_assoc]
  loaded k n hn := by
    rw [hnodes, List.getElem?_append] at hn
    split at hn
    · next hlt =>
      obtain ⟨hid, f, hsource, hf, hdoc⟩ := hs.loaded k n hn
      refine ⟨hid, f, hsource, ?_, hdoc⟩
      have hlt' : start.size + k ≠ s.files.files.size := by
        rw [← FileSet.size, hs.size]
        omega
      rw [hfiles, Array.getElem?_push, if_neg hlt', hf]
    · next hge =>
      rw [List.getElem?_singleton] at hn
      split at hn
      · next hzero =>
        have hk : start.size + k = s.files.files.size := by
          rw [← FileSet.size, hs.size]
          omega
        cases hn
        refine ⟨?_, file, ?_, ?_, rfl⟩
        · rw [hk]
          exact id_of_sourceAt hfile
        · rw [unfollowed, id_of_sourceAt hfile, hfile]
        · rw [hfiles, hk, Array.getElem?_push, if_pos rfl]
      · cases hn
  nodup := by
    rw [hnodes, List.map_append, List.nodup_append]
    refine ⟨hs.nodup, List.nodup_singleton path, ?_⟩
    rintro p hp q hq rfl
    rw [List.mem_singleton.mp hq] at hp
    exact hnew hp
  stack_subset := by
    rw [hnodes, List.map_append]
    exact List.append_subset.mpr ⟨fun p hp => List.mem_append_left _ (hs.stack_subset hp),
      List.subset_append_right _ _⟩
  settled n hn hoff := by
    rw [hnodes] at hn ⊢
    rw [List.mem_append, not_or, List.mem_singleton] at hoff
    rcases List.mem_append.mp hn with hn | hn
    · obtain ⟨k, hk⟩ := List.mem_iff_getElem?.mp hn
      have hreadable : ∀ p ∈ (numbers [unfollowed parse path file]).map (·.1),
          t.Readable p := by
        intro p hp
        rw [map_fst_numbers, List.map_singleton, List.mem_singleton] at hp
        rw [hp]
        exact readable_of_sourceAt hfile
      have := (hs.settled n hn hoff.1).append (importsAt_of_loadedAs (hs.loaded k n hk)) hreadable
      rwa [numbers, numbers, ← List.map_append] at this
    · rw [List.mem_singleton.mp hn] at hoff
      exact absurd rfl hoff.2

theorem numbers_leave (s : Search) (path : String) (edges : List ImportEdge) :
    numbers (s.leave path edges).nodes = numbers s.nodes := by
  simp only [numbers, Search.leave, List.map_map]
  refine List.map_congr_left fun n _ => ?_
  simp only [Function.comp_apply]
  split <;> rfl

theorem map_path_leave (s : Search) (path : String) (edges : List ImportEdge) :
    (s.leave path edges).nodes.map (·.path) = s.nodes.map (·.path) := by
  rw [← map_fst_numbers, numbers_leave, map_fst_numbers]

/-- A file whose imports were all followed goes off the stack. -/
theorem Search.WellFormed.leave (hs : s.WellFormed parse t roots start (stack ++ [path]))
    (hsettled : ∀ n ∈ s.nodes, n.path = path →
      Settled parse t roots (numbers s.nodes) { n with imports := edges }) :
    (s.leave path edges).WellFormed parse t roots start stack where
  open_ := hs.open_
  workDir := hs.workDir
  base := hs.base
  size := by
    rw [show (s.leave path edges).files = s.files from rfl, hs.size]
    simp [Search.leave]
  loaded k n hn := by
    rw [Search.leave, List.getElem?_map] at hn
    obtain ⟨m, hm, rfl⟩ := Option.map_eq_some_iff.mp hn
    obtain ⟨hid, hsource⟩ := hs.loaded k m hm
    split
    · exact ⟨hid, hsource⟩
    · exact ⟨hid, hsource⟩
  nodup := by
    rw [map_path_leave]
    exact hs.nodup
  stack_subset := by
    rw [map_path_leave]
    exact fun p hp => hs.stack_subset (List.mem_append_left _ hp)
  settled n hn hoff := by
    rw [numbers_leave]
    obtain ⟨m, hm, rfl⟩ := List.mem_map.mp hn
    split at hoff
    · next heq =>
      rw [if_pos heq]
      exact hsettled m hm (by simpa using heq)
    · next hne =>
      rw [if_neg hne]
      refine hs.settled m hm ?_
      rw [List.mem_append, List.mem_singleton, not_or]
      exact ⟨hoff, by simpa using hne⟩

/-! ## The way down -/

/-- The files on the stack lead from the entry to a path: each of them imports the next one,
and they are pairwise distinct.  The path itself need not be that of a readable file. -/
structure Trail (parse : TreeParser) (t : FileTree) (roots : List String) (entry : String)
    (stack : List String) (path : String) : Prop where
  chain : t.Readable path → (stack ++ [path]).IsChain (Imports parse t roots)
  reached : t.Readable path →
    ∀ p ∈ stack ++ [path], ReflTransGen (Imports parse t roots) entry p
  clean : ∀ p ∈ stack ++ [path], Path.IsClean p
  readable : ∀ p ∈ stack, t.Readable p
  nodup : stack.Nodup

theorem Trail.length_le (h : Trail parse t roots entry stack path) :
    stack.length ≤ t.entries.length :=
  FileTree.length_le_of_readable h.nodup (fun p hp => h.clean p (List.mem_append_left _ hp))
    h.readable

/-- The way from a file on to a file that one of its imports leads to. -/
theorem Trail.push {path b : String} (h : Trail parse t roots entry stack path)
    (hread : t.Readable path) (hnew : path ∉ stack) (hb : b ∈ targetFiles parse t roots path) :
    Trail parse t roots entry (stack ++ [path]) b where
  chain hbread := by
    refine List.isChain_append.mpr ⟨h.chain hread, List.isChain_singleton b, ?_⟩
    simpa using imports_iff.mpr ⟨hb, hbread⟩
  reached hbread p hp := by
    rcases List.mem_append.mp hp with hp | hp
    · exact h.reached hread p hp
    · rw [List.mem_singleton.mp hp]
      exact (h.reached hread path (by simp)).tail (imports_iff.mpr ⟨hb, hbread⟩)
  clean p hp := by
    rcases List.mem_append.mp hp with hp | hp
    · exact h.clean p hp
    · rw [List.mem_singleton.mp hp]
      exact isClean_of_mem_targetFiles hb
  readable p hp := by
    rcases List.mem_append.mp hp with hp | hp
    · exact h.readable p hp
    · rwa [List.mem_singleton.mp hp]
  nodup := by
    rw [List.nodup_append]
    exact ⟨h.nodup, List.nodup_singleton path, by grind⟩

/-- What is reported holds one cycle: a chain of pairwise distinct files that leads back to
its first one, which can be reached from the entry.  The message names the files of the
chain in order, by their paths from the base directory. -/
def ReportsCycle (parse : TreeParser) (t : FileTree) (roots : List String) (start : FileSet)
    (entry : String) (log : List Diagnostic) : Prop :=
  ∃ first rest span,
    log.filter (·.code == ⟨4003⟩) =
      [⟨.error, ⟨4003⟩, span, .text ("import cycle: " ++ " -> ".intercalate ((first :: rest ++
        [first]).map fun p => Path.relativeTo start.workDir p start.base)), []⟩] ∧
    (first :: rest).Nodup ∧ (first :: rest ++ [first]).IsChain (Imports parse t roots) ∧
    ReflTransGen (Imports parse t roots) entry first

/-- No cycle is reported. -/
def Quiet (log : List Diagnostic) : Prop := ∀ d ∈ log, d.code ≠ .importCycle

theorem Quiet.append (h₁ : Quiet log₁) (h₂ : Quiet log₂) :
    Quiet (log₁ ++ log₂) := List.forall_mem_append.mpr ⟨h₁, h₂⟩

theorem ReportsCycle.append
    (h₁ : Quiet log₁) (h₂ : ReportsCycle parse t roots start entry log₂) :
    ReportsCycle parse t roots start entry (log₁ ++ log₂) := by
  have hnone : log₁.filter (·.code == ⟨4003⟩) = [] := by
    simpa [List.filter_eq_nil_iff, Quiet, Code.importCycle] using h₁
  obtain ⟨first, rest, span, hfilter, h⟩ := h₂
  exact ⟨first, rest, span, by rw [List.filter_append, hnone, hfilter, List.nil_append], h⟩

/-- A trail to a file on the stack closes a cycle. -/
theorem Trail.reportsCycle {from_ : Span} (h : Trail parse t roots entry stack path)
    (hon : path ∈ stack) :
    ReportsCycle parse t roots start entry
      [(ImportProblem.cycle ((stack.dropWhile (· != path) ++ [path]).map fun p =>
        Path.relativeTo start.workDir p start.base)).at_ from_] := by
  have hsplit := List.takeWhile_append_dropWhile (p := (· != path)) (l := stack)
  obtain ⟨rest, hrest⟩ : ∃ rest, stack.dropWhile (· != path) = path :: rest := by
    cases hdrop : stack.dropWhile (· != path) with
    | nil =>
        have := List.dropWhile_eq_nil_iff.mp hdrop path hon
        simp at this
    | cons p rest =>
        have := List.head?_dropWhile_not (· != path) stack
        rw [hdrop] at this
        exact ⟨rest, by simpa using this⟩
  rw [hrest] at hsplit ⊢
  refine ⟨path, rest, from_, rfl, ?_, ?_, ?_⟩
  · have := h.nodup
    rw [← hsplit] at this
    exact (List.nodup_append.mp this).2.1
  · have := h.chain (h.readable path hon)
    rw [← hsplit, List.append_assoc] at this
    exact (List.isChain_append.mp this).2.1
  · exact h.reached (h.readable path hon) path (by simp)

/-! ## What a visit does -/

/-- A part of the search went through the files of `todo` and met no cycle. -/
structure Advances (parse : TreeParser) (t : FileTree) (roots : List String) (start : FileSet)
    (stack todo : List String) (s s' : Search) (log : List Diagnostic) : Prop where
  wellFormed : s'.WellFormed parse t roots start stack
  order : ∃ new, numbers s'.nodes = numbers s.nodes ++ new ∧
    Preorder (importedFiles parse t roots) (s.nodes.map (·.path)) todo (new.map (·.1))
  off_stack : ∀ p ∈ todo, p ∉ stack
  quiet : Quiet log

/-- A part of the search ended with a cycle. -/
def EndsInCycle (parse : TreeParser) (t : FileTree) (roots : List String) (start : FileSet)
    (entry : String) (s' : Search) (log : List Diagnostic) : Prop :=
  s'.cyclic = true ∧ ReportsCycle parse t roots start entry log

/-- A way to visit a path either goes on to all files below it or ends with a cycle. -/
def Visits (parse : TreeParser) (t : FileTree) (roots : List String) (start : FileSet)
    (entry : String) (stack : List String) (path : String)
    (v : Span → SearchM (Option FileId)) : Prop :=
  ∀ from_ s, s.WellFormed parse t roots start stack →
    (Advances parse t roots start stack ([path].filter (t.Readable ·)) s (v from_ s).value.2
        (v from_ s).log ∧
      (v from_ s).value.1 = (numbers (v from_ s).value.2.nodes).lookup path) ∨
    EndsInCycle parse t roots start entry (v from_ s).value.2 (v from_ s).log

theorem Advances.todo_subset {stack todo : List String} {s s' : Search}
    (h : Advances parse t roots start stack todo s s' log) : todo ⊆ s'.nodes.map (·.path) := by
  obtain ⟨new, hnew, hpre⟩ := h.order
  rw [← map_fst_numbers, hnew, List.map_append, map_fst_numbers]
  exact hpre.todo_subset

theorem Advances.trans {stack todo₁ todo₂ : List String} {s s' s'' : Search}
    (h₁ : Advances parse t roots start stack todo₁ s s' log₁)
    (h₂ : Advances parse t roots start stack todo₂ s' s'' log₂) :
    Advances parse t roots start stack (todo₁ ++ todo₂) s s'' (log₁ ++ log₂) where
  wellFormed := h₂.wellFormed
  order := by
    obtain ⟨new₁, hnew₁, hpre₁⟩ := h₁.order
    obtain ⟨new₂, hnew₂, hpre₂⟩ := h₂.order
    refine ⟨new₁ ++ new₂, by rw [hnew₂, hnew₁, List.append_assoc], ?_⟩
    rw [← map_fst_numbers, hnew₁, List.map_append, map_fst_numbers] at hpre₂
    rw [List.map_append]
    exact hpre₁.append hpre₂
  off_stack := List.forall_mem_append.mpr ⟨h₁.off_stack, h₂.off_stack⟩
  quiet := h₁.quiet.append h₂.quiet

theorem quiet_repeats (before : List Target) (x : Target) : Quiet (repeats before x) := by
  intro d hd
  obtain ⟨first, _, rfl⟩ := Option.map_eq_some_iff.mp (Option.mem_toList.mp hd)
  show Code.duplicateNamespace ≠ Code.importCycle
  decide

/-- Following imports visits their files one after the other. -/
theorem follow_spec {next : String → Span → SearchM (Option FileId)} :
    ∀ (ts before : List Target) (s : Search),
      (∀ x ∈ ts, Visits parse t roots start entry stack x.path (next x.path)) →
      s.WellFormed parse t roots start stack →
      (Advances parse t roots start stack ((ts.map (·.path)).filter (t.Readable ·)) s
          (follow next before ts s).value.2 (follow next before ts s).log ∧
        (follow next before ts s).value.1 = ts.filterMap fun x =>
          ((numbers (follow next before ts s).value.2.nodes).lookup x.path).map fun id =>
            ⟨x.entry.key.text, id, x.entry.key.span⟩) ∨
      EndsInCycle parse t roots start entry (follow next before ts s).value.2
        (follow next before ts s).log
  | [], before, s, _, hs => by
      rw [follow_nil]
      exact .inl ⟨⟨hs, ⟨[], by simp, .nil _⟩, by simp, by simp [Quiet]⟩, rfl⟩
  | x :: ts, before, s, hnext, hs => by
      have hrepeats := quiet_repeats before x
      rcases hnext x (List.mem_cons_self ..) x.entry.value.span s hs with ⟨hchild, hid⟩ | hcycle
      · rw [follow_cons hchild.wellFormed.open_]
        dsimp only
        rcases follow_spec ts (before ++ [x]) _ (fun y hy => hnext y (List.mem_cons_of_mem _ hy))
          hchild.wellFormed with ⟨hrest, hedges⟩ | hcycle
        · refine .inl ⟨?_, ?_⟩
          · have := hchild.trans hrest
            rw [← List.filter_append, List.singleton_append, ← List.map_cons] at this
            exact ⟨this.wellFormed, this.order, this.off_stack, hrepeats.append this.quiet⟩
          · obtain ⟨new, hnew, _⟩ := hrest.order
            have hstays : x.path ∈ new.map (·.1) → x.path ∈
                (numbers (next x.path x.entry.value.span s).value.2.nodes).map (·.1) := by
              intro hmem
              have hread : t.Readable x.path := hrest.wellFormed.readable _ (by
                rw [← map_fst_numbers, hnew, List.map_append]
                exact List.mem_append_right _ hmem)
              rw [map_fst_numbers]
              exact hchild.todo_subset (by simpa using hread)
            rw [hid, hedges, List.filterMap_cons, hnew, lookup_append_of_mem hstays]
            cases (numbers (next x.path x.entry.value.span s).value.2.nodes).lookup x.path <;> rfl
        · exact .inr ⟨hcycle.1, .append hrepeats (.append hchild.quiet hcycle.2)⟩
      · rw [follow_cons_cyclic hcycle.1]
        exact .inr ⟨hcycle.1, .append hrepeats hcycle.2⟩

theorem Search.WellFormed.shownPath_eq {p : String}
    (hs : s.WellFormed parse t roots start stack) (hp : p ∈ stack) (hclean : Path.IsClean p) :
    s.shownPath p = Path.relativeTo start.workDir p start.base := by
  rw [Search.shownPath, if_pos (isSome_node?.mpr (hs.stack_subset hp)), hclean.clean_eq,
    FileSet.shownPath, if_pos hclean.isAbsolute, FileSet.relativePath, FileSet.baseDir, hs.workDir,
    hs.base]
  unfold Path.relativeTo
  cases hbase : start.base.isEmpty <;>
    simp only [hbase, if_true, Bool.false_eq_true, if_false, ite_self]

theorem quiet_decode (file : SourceFile) : Quiet (Document.decode file parse).log := by
  refine Document.reports_decode (fun span p => ?_) file parse
  cases p with
  | _ =>
    simp only [DocumentProblem.at_, Diagnostic.error, Diagnostic.warning]
    decide

theorem quiet_targets (dir : String) (entries : List Entry) :
    Quiet (targets t roots dir entries).log := by
  refine (ensures_targets (r := .all) dir (fun span p _ hp => ?_) entries
    fun e _ => ⟨Region.mem_all _, Region.mem_all _⟩).reports
  cases p with
  | cycle chain => exact absurd rfl (hp chain)
  | _ =>
    simp only [ImportProblem.at_, Diagnostic.error, ImportProblem.code]
    decide

/-- The node of a file keeps its number and document while the files below it are loaded. -/
theorem Advances.document_eq {stack todo : List String} {s s' : Search}
    (h : Advances parse t roots start stack todo s s' log)
    (hs : s.WellFormed parse t roots start stack)
    {m n : FileNode} (hm : m ∈ s.nodes) (hn : n ∈ s'.nodes) (hpath : n.path = m.path) :
    n.document = m.document := by
  obtain ⟨new, hnew, _⟩ := h.order
  have hid : n.id = m.id := by
    have hlookup := lookup_of_mem h.wellFormed.nodup hn
    rw [hnew, hpath, lookup_append_of_mem fun _ => by
      rw [map_fst_numbers]; exact List.mem_map_of_mem hm, lookup_of_mem hs.nodup hm] at hlookup
    exact (Option.some.inj hlookup).symm
  obtain ⟨k, hk⟩ := List.mem_iff_getElem?.mp hm
  obtain ⟨k', hk'⟩ := List.mem_iff_getElem?.mp hn
  obtain ⟨f, hf, _, hdoc⟩ := (hs.loaded k m hk).source
  obtain ⟨f', hf', _, hdoc'⟩ := (h.wellFormed.loaded k' n hk').source
  rw [hid, hpath, hf] at hf'
  rw [hdoc, hdoc', Option.some.inj hf']

/-- A file is settled once its imports were followed: they are loaded and off the stack, so
they are settled themselves. -/
theorem Advances.settled {s s' : Search} {m : FileNode}
    (h : Advances parse t roots start stack (importedFiles parse t roots m.path) s s' log)
    (hs : s.WellFormed parse t roots start stack) (hm : m ∈ s.nodes)
    (hedges : edges = edgesOf t roots (numbers s'.nodes) m) :
    ∀ n ∈ s'.nodes, n.path = m.path →
      Settled parse t roots (numbers s'.nodes) { n with imports := edges } := by
  intro n hn hpath
  refine ⟨?_, ?_, ?_⟩
  · rw [map_fst_numbers]
    dsimp only
    rw [hpath]
    exact h.todo_subset
  · rw [hedges]
    unfold edgesOf
    dsimp only
    rw [h.document_eq hs hm hn hpath, hpath]
  · refine Acc.intro _ fun b hb => ?_
    dsimp only at hb
    rw [hpath] at hb
    have hb' := mem_importedFiles.mpr hb
    obtain ⟨c, hc, rfl⟩ := List.mem_map.mp (h.todo_subset hb')
    exact (h.wellFormed.settled c hc (h.off_stack _ hb')).acc

/-- A file was loaded and its imports were followed: all that is new then comes after it. -/
theorem Advances.leave {s s₁ s₂ : Search}
    (hs₁ : s₁.WellFormed parse t roots start (stack ++ [path])) (hoff : path ∉ stack)
    (hnew : path ∉ s.nodes.map (·.path))
    (hnodes : s₁.nodes = s.nodes ++ [unfollowed parse path file])
    (h : Advances parse t roots start (stack ++ [path]) (importedFiles parse t roots path) s₁ s₂
      log)
    (hedges : edges = edgesOf t roots (numbers s₂.nodes) (unfollowed parse path file)) :
    Advances parse t roots start stack [path] s (s₂.leave path edges) log ∧
      some file.id = (numbers (s₂.leave path edges).nodes).lookup path := by
  have hmem : unfollowed parse path file ∈ s₁.nodes := by simp [hnodes]
  obtain ⟨new, hnumbers, hpre⟩ := h.order
  have hsettled := settled (m := unfollowed parse path file) h hs₁ hmem hedges
  refine ⟨⟨h.wellFormed.leave hsettled, ⟨(path, file.id) :: new, ?_, ?_⟩,
    by simpa using hoff, h.quiet⟩, ?_⟩
  · rw [numbers_leave, hnumbers, hnodes]
    simp [numbers, unfollowed]
  · rw [hnodes, List.map_append] at hpre
    simpa using Preorder.enter hnew hpre (.nil _)
  · have hold : path ∈ (numbers s₁.nodes).map (·.1) := by
      rw [map_fst_numbers]
      exact List.mem_map_of_mem hmem
    rw [numbers_leave, hnumbers, lookup_append_of_mem fun _ => hold]
    exact (lookup_of_mem hs₁.nodup hmem).symm

/-- The visit of a new file: it is loaded, its imports are followed, and it is left. -/
theorem visitWith_new (parse : TreeParser) (roots : List String)
    (deeper : List String → String → Span → SearchM (Option FileId))
    (from_ : Span) (hread : t.Readable path)
    (hoff : path ∉ stack) (hnew : path ∉ s.nodes.map (·.path)) :
    ∃ file s₁, sourceAt t (UInt32.ofNat s.files.size) path = some file ∧
      s₁.cyclic = s.cyclic ∧ s₁.files = { s.files with files := s.files.files.push file } ∧
      s₁.nodes = s.nodes ++ [unfollowed parse path file] ∧
      visitWith (.plain t parse) t roots deeper stack path from_ s =
        let found := targets t roots (Path.dir path) (Document.decode file parse).value.imports
        let followed := follow (deeper (stack ++ [path])) [] found.value s₁
        ⟨(some file.id, followed.value.2.leave path followed.value.1),
          (Document.decode file parse).log ++ (found.log ++ followed.log)⟩ := by
  obtain ⟨content, hcontent⟩ := hread
  obtain ⟨file, visits, hfile, hload⟩ := load_eq parse hcontent (s.take path)
  let found := targets t roots (Path.dir path) (Document.decode file parse).value.imports
  obtain ⟨ahead, hahead⟩ :=
    readAhead_eq (load parse path content (s.take path)).value.2 found.value
  refine ⟨file, (load parse path content (s.take path)).value.2.readAhead found.value, hfile,
    ?_, ?_, ?_, ?_⟩
  · rw [hahead, hload]
    rfl
  · rw [hahead, hload]
    rfl
  · rw [hahead, hload]
    rfl
  · rw [visitWith_readable hoff (node?_eq_none.mpr hnew) hcontent,
      show (Reading.plain t parse).parse = parse from rfl, hload]
    rfl

/-- The visit of a file that cannot be read reports it and changes nothing else. -/
theorem visitWith_not_readable (deeper : List String → String → Span → SearchM (Option FileId))
    (hs : s.WellFormed parse t roots start stack) (from_ : Span) (hread : ¬ t.Readable path)
    (hoff : path ∉ stack) :
    let visited := visitWith (.plain t parse) t roots deeper stack path from_ s
    visited.value.1 = none ∧ visited.value.2.WellFormed parse t roots start stack ∧
      visited.value.2.nodes = s.nodes ∧ Quiet visited.log := by
  have hnone : s.node? path = none := node?_eq_none.mpr fun hmem => hread (hs.readable path hmem)
  cases hcontent : t.read path with
  | ok content => exact absurd ⟨content, hcontent⟩ hread
  | error e =>
      rw [visitWith_unreadable hoff hnone hcontent]
      refine ⟨rfl, ⟨hs.open_, hs.workDir, hs.base, hs.size, hs.loaded, hs.nodup, hs.stack_subset,
        hs.settled⟩, rfl, fun d hd => ?_⟩
      rw [List.mem_singleton.mp hd]
      split
      · show Code.fileNotFound ≠ Code.importCycle
        decide
      · show Code.unreadableFile ≠ Code.importCycle
        decide

/-- One visit does what it should if the visits further down do. -/
theorem visitWith_spec {deeper : List String → String → Span → SearchM (Option FileId)}
    (trail : Trail parse t roots entry stack path)
    (hdeeper : path ∉ stack → t.Readable path → ∀ b ∈ targetFiles parse t roots path,
      Visits parse t roots start entry (stack ++ [path]) b (deeper (stack ++ [path]) b)) :
    Visits parse t roots start entry stack path
      (visitWith (.plain t parse) t roots deeper stack path) := by
  intro from_ s hs
  by_cases hon : path ∈ stack
  · rw [visitWith_onStack hon]
    refine .inr ⟨rfl, ?_⟩
    have hshown : ∀ p ∈ stack.dropWhile (· != path) ++ [path],
        s.shownPath p = Path.relativeTo start.workDir p start.base := by
      intro p hp
      have hp' : p ∈ stack := by
        rcases List.mem_append.mp hp with hp | hp
        · exact List.dropWhile_subset _ hp
        · rwa [List.mem_singleton.mp hp]
      exact hs.shownPath_eq hp' (trail.clean p (List.mem_append_left _ hp'))
    rw [List.map_congr_left hshown]
    exact trail.reportsCycle hon
  by_cases hread : t.Readable path
  swap
  · obtain ⟨hvalue, hwell, hnodes, hquiet⟩ :=
      visitWith_not_readable deeper hs from_ hread hon
    have hlookup : (numbers s.nodes).lookup path = none := by
      rw [lookup_numbers, ← Search.node?,
        node?_eq_none.mpr fun hmem => hread (hs.readable path hmem)]
      rfl
    rw [hvalue, hnodes, hlookup, List.filter_singleton, decide_eq_false hread]
    exact .inl ⟨⟨hwell, ⟨[], by rw [hnodes, List.append_nil], .nil _⟩, by simp, hquiet⟩, rfl⟩
  rw [List.filter_singleton, decide_eq_true hread]
  by_cases hmem : path ∈ s.nodes.map (·.path)
  · obtain ⟨node, hnode⟩ := Option.isSome_iff_exists.mp (isSome_node?.mpr hmem)
    rw [visitWith_loaded hon hnode]
    refine .inl ⟨⟨hs, ⟨[], by simp, .skip hmem (.nil _)⟩, by simpa using hon, by simp [Quiet]⟩, ?_⟩
    rw [lookup_numbers, ← Search.node?, hnode]
    rfl
  obtain ⟨file, s₁, hfile, hcyclic, hfiles, hnodes, heq⟩ :=
    visitWith_new parse roots deeper from_ hread hon hmem
  rw [heq]
  have hs₁ := hs.enter hmem hfile hcyclic hfiles hnodes
  have hpaths := map_path_targets parse roots hfile
  have hvisits : ∀ x ∈ (targets t roots (Path.dir path)
      (Document.decode file parse).value.imports).value,
      Visits parse t roots start entry (stack ++ [path]) x.path
        (deeper (stack ++ [path]) x.path) := by
    intro x hx
    refine hdeeper hon hread x.path ?_
    rw [← hpaths]
    exact List.mem_map_of_mem hx
  rcases follow_spec _ [] s₁ hvisits hs₁ with ⟨hadvances, hedges⟩ | hcycle
  · rw [hpaths, ← importedFiles] at hadvances
    obtain ⟨hleave, hid⟩ := hadvances.leave hs₁ hon hmem hnodes
      (hedges.trans (edgesOf_eq_filterMap_targets _ (unfollowed parse path file)).symm)
    refine .inl ⟨⟨hleave.wellFormed, hleave.order, hleave.off_stack, ?_⟩, hid⟩
    exact (quiet_decode file).append ((quiet_targets _ _).append hleave.quiet)
  · exact .inr ⟨hcycle.1, .append (quiet_decode file) (.append (quiet_targets _ _) hcycle.2)⟩

/-! ## The whole search -/

/-- Visits down to a depth that no trail exceeds do what they should, whatever happens
further down. -/
theorem iterate_visitWith_spec (parse : TreeParser) (roots : List String) (start : FileSet)
    (deeper : List String → String → Span → SearchM (Option FileId)) :
    ∀ (fuel : Nat) (stack : List String) (path : String), t.entries.length < fuel + stack.length →
      Trail parse t roots entry stack path →
      Visits parse t roots start entry stack path
        ((visitWith (.plain t parse) t roots)^[fuel] deeper stack path)
  | 0, stack, path, hfuel, trail => by
      have := trail.length_le
      omega
  | fuel + 1, stack, path, hfuel, trail => by
      rw [Function.iterate_succ_apply']
      refine visitWith_spec trail fun hoff hread b hb => ?_
      refine iterate_visitWith_spec parse roots start deeper fuel _ b ?_ (trail.push hread hoff hb)
      rw [List.length_append, List.length_singleton]
      omega

theorem visit_eq_iterate (read : Reading) (t : FileTree) (roots : List String) : ∀ fuel : Nat,
    visit read t roots fuel = (visitWith read t roots)^[fuel] fun _ _ _ => pure none
  | 0 => rfl
  | fuel + 1 => by
      rw [visit, Function.iterate_succ_apply', visit_eq_iterate read t roots fuel]

theorem follow_congr {next₁ next₂ : String → Span → SearchM (Option FileId)} :
    ∀ (ts before : List Target), (∀ x ∈ ts, next₁ x.path = next₂ x.path) →
      follow next₁ before ts = follow next₂ before ts
  | [], _, _ => rfl
  | x :: ts, before, h => by
      rw [follow, follow, h x (List.mem_cons_self ..),
        follow_congr ts (before ++ [x]) fun y hy => h y (List.mem_cons_of_mem _ hy)]

/-- A visit goes down to the files that the imports lead to only, and only from a file that is
new on the stack. -/
theorem visitWith_congr {deeper₁ deeper₂ : List String → String → Span → SearchM (Option FileId)}
    (h : path ∉ stack → t.Readable path → ∀ b ∈ targetFiles parse t roots path,
      deeper₁ (stack ++ [path]) b = deeper₂ (stack ++ [path]) b) :
    visitWith (.plain t parse) t roots deeper₁ stack path =
      visitWith (.plain t parse) t roots deeper₂ stack path := by
  funext from_ s
  by_cases hon : path ∈ stack
  · rw [visitWith_onStack hon, visitWith_onStack hon]
  cases hnode : s.node? path with
  | some node => rw [visitWith_loaded hon hnode, visitWith_loaded hon hnode]
  | none =>
      cases hread : t.read path with
      | error e => rw [visitWith_unreadable hon hnode hread, visitWith_unreadable hon hnode hread]
      | ok content =>
          obtain ⟨file, visits, hfile, hload⟩ := load_eq parse hread (s.take path)
          have hsame := follow_congr (targets t roots (Path.dir path)
            (Document.decode file parse).value.imports).value [] fun x hx =>
              h hon ⟨content, hread⟩ x.path
                (map_path_targets parse roots hfile ▸ List.mem_map_of_mem hx)
          rw [visitWith_readable hon hnode hread, visitWith_readable hon hnode hread,
            show (Reading.plain t parse).parse = parse from rfl, hload]
          simp only [unfollowed, hsame]

/-- Visits down to a depth that no trail exceeds never go further down. -/
theorem iterate_visitWith_congr
    (deeper₁ deeper₂ : List String → String → Span → SearchM (Option FileId)) :
    ∀ (fuel : Nat) (stack : List String) (path : String), t.entries.length < fuel + stack.length →
      Trail parse t roots entry stack path →
      (visitWith (.plain t parse) t roots)^[fuel] deeper₁ stack path =
        (visitWith (.plain t parse) t roots)^[fuel] deeper₂ stack path
  | 0, stack, path, hfuel, trail => by
      have := trail.length_le
      omega
  | fuel + 1, stack, path, hfuel, trail => by
      rw [Function.iterate_succ_apply', Function.iterate_succ_apply']
      refine visitWith_congr fun hoff hread b hb => ?_
      refine iterate_visitWith_congr deeper₁ deeper₂ fuel _ b ?_ (trail.push hread hoff hb)
      rw [List.length_append, List.length_singleton]
      omega

end Netlist.Import
