import Netlist.Proofs.Import.Search

/-!
# The files that are found

The search from an entry ends without a graph if and only if a file that can be reached from
the entry is on a cycle of imports (`resolve_finds_cycles`).  Otherwise the graph holds
exactly the readable files that can be reached, in the order of a depth first search
(`resolve_graph_shape`).
-/

namespace Netlist.Import

open Relation (ReflTransGen TransGen)

variable {parse : TreeParser} {t : FileTree} {roots : List String} {files : FileSet}
  {alloc : Allocator} {entry : String}

/-! ## The search from an entry -/

/-- The search for the files of an entry, from files that do not change. -/
def searchFrom (parse : TreeParser) (t : FileTree) (roots : List String) (files : FileSet)
    (entry : String) : Logged (Option FileId × Search) :=
  visit (.plain t parse) t roots (t.entries.length + 1) [] (Path.absolute t.workDir entry)
    Span.nowhere { files := files }

theorem wellFormed_start (parse : TreeParser) (t : FileTree) (roots : List String)
    (files : FileSet) :
    Search.WellFormed parse t roots files [] { files := files } where
  open_ := rfl
  workDir := rfl
  base := rfl
  size := rfl
  loaded k n hn := by simp at hn
  nodup := List.nodup_nil
  stack_subset := List.nil_subset _
  settled n hn := absurd hn List.not_mem_nil

theorem trail_entry (parse : TreeParser) (t : FileTree) (roots : List String) (entry : String) :
    Trail parse t roots (Path.absolute t.workDir entry) [] (Path.absolute t.workDir entry) where
  chain _ := List.isChain_singleton _
  reached _ p hp := by
    rw [List.mem_singleton.mp hp]
  clean p hp := by
    rw [List.mem_singleton.mp hp]
    exact Path.isClean_absolute entry t.rooted
  readable p hp := absurd hp List.not_mem_nil
  nodup := List.nodup_nil

/-- The search goes through all files from the entry on, if that can be read, or ends in a
cycle. -/
theorem searchFrom_spec (parse : TreeParser) (t : FileTree) (roots : List String)
    (files : FileSet) (entry : String) :
    Advances parse t roots files [] ([Path.absolute t.workDir entry].filter (t.Readable ·))
        { files := files } (searchFrom parse t roots files entry).value.2
        (searchFrom parse t roots files entry).log ∨
      EndsInCycle parse t roots files (Path.absolute t.workDir entry)
        (searchFrom parse t roots files entry).value.2
        (searchFrom parse t roots files entry).log := by
  have hvisits := iterate_visitWith_spec parse roots files (fun _ _ _ => pure none)
    (t.entries.length + 1) [] (Path.absolute t.workDir entry) (by simp)
    (trail_entry parse t roots entry)
  rw [← visit_eq_iterate] at hvisits
  exact (hvisits Span.nowhere _ (wellFormed_start parse t roots files)).imp_left And.left

/-- A search that met no cycle went through all files. -/
theorem advances_of_not_cyclic
    (h : (searchFrom parse t roots files entry).value.2.cyclic = false) :
    Advances parse t roots files [] ([Path.absolute t.workDir entry].filter (t.Readable ·))
      { files := files } (searchFrom parse t roots files entry).value.2
      (searchFrom parse t roots files entry).log := by
  rcases searchFrom_spec parse t roots files entry with hadvances | hcycle
  · exact hadvances
  · exact absurd (h.symm.trans hcycle.1) Bool.false_ne_true

/-! ## Cycles -/

/-- No file on a cycle comes after a file from which every chain of imports ends. -/
theorem not_transGen_of_acc {a b : String} (h : Acc (fun b a => Imports parse t roots a b) a)
    (hab : ReflTransGen (Imports parse t roots) a b) : ¬ TransGen (Imports parse t roots) b b := by
  have hb : Acc (fun b a => Imports parse t roots a b) b := by
    induction hab with
    | refl => exact h
    | tail _ hstep ih => exact ih.inv hstep
  induction hb with
  | intro b _ ih =>
      intro hcycle
      obtain ⟨c, hbc, hcb⟩ := TransGen.head'_iff.mp hcycle
      exact ih c hbc (hab.tail hbc) (.tail' hcb hbc)

theorem acc_entry (h : (searchFrom parse t roots files entry).value.2.cyclic = false) :
    Acc (fun b a => Imports parse t roots a b) (Path.absolute t.workDir entry) := by
  have hadvances := advances_of_not_cyclic h
  by_cases hread : t.Readable (Path.absolute t.workDir entry)
  · have htodo : Path.absolute t.workDir entry ∈
        [Path.absolute t.workDir entry].filter (t.Readable ·) := by simpa using hread
    obtain ⟨n, hn, hpath⟩ := List.mem_map.mp (hadvances.todo_subset htodo)
    rw [← hpath]
    exact (hadvances.wellFormed.settled n hn List.not_mem_nil).acc
  · exact Acc.intro _ fun b hb => absurd hb.readable hread

theorem reportsCycle_of_cyclic
    (h : (searchFrom parse t roots files entry).value.2.cyclic = true) :
    ReportsCycle parse t roots files (Path.absolute t.workDir entry)
      (searchFrom parse t roots files entry).log := by
  rcases searchFrom_spec parse t roots files entry with hadvances | hcycle
  · exact absurd (hadvances.wellFormed.open_.symm.trans h) Bool.false_ne_true
  · exact hcycle.2

/-- The chain that is reported leads around a cycle. -/
theorem ReportsCycle.exists_transGen {file : String} {log : List Diagnostic}
    (h : ReportsCycle parse t roots files file log) :
    ∃ a, ReflTransGen (Imports parse t roots) file a ∧ TransGen (Imports parse t roots) a a := by
  obtain ⟨first, rest, _, _, _, hchain, hreach⟩ := h
  refine ⟨first, hreach, ?_⟩
  cases rest with
  | nil => exact .single (by simpa using hchain)
  | cons next rest =>
      rw [List.cons_append, List.cons_append, List.isChain_cons_cons] at hchain
      have hback : ReflTransGen (Imports parse t roots) next first :=
        List.relationReflTransGen_of_exists_isChain_cons (rest ++ [first]) hchain.2 (by simp)
      exact .head' hchain.1 hback

theorem resolve_of_cyclic (alloc : Allocator)
    (h : (searchFrom parse t roots files entry).value.2.cyclic = true) :
    (resolve t roots files alloc entry parse).value.graph = none ∧
      (resolve t roots files alloc entry parse).log =
        (searchFrom parse t roots files entry).log := by
  unfold resolve resolveWith
  dsimp only
  rw [← searchFrom, if_pos h]
  exact ⟨rfl, rfl⟩

theorem resolve_of_not_cyclic (alloc : Allocator)
    (h : (searchFrom parse t roots files entry).value.2.cyclic = false) :
    ∃ g, (resolve t roots files alloc entry parse).value.graph = some g ∧
      g.nodes = (searchFrom parse t roots files entry).value.2.nodes ∧
      g.files = (searchFrom parse t roots files entry).value.2.files ∧
      g.broken = (resolve t roots files alloc entry parse).hasErrors := by
  unfold resolve resolveWith
  dsimp only
  rw [← searchFrom, if_neg (by simp [h])]
  refine ⟨_, rfl, rfl, rfl, ?_⟩
  simp [Logged.hasErrors]

/-- Import cycles are found exactly, whatever the trees of the files are.  The search never goes
deeper than the tree has entries, whatever would happen there.  It gives no graph if and only if
a file that can be reached is on a cycle, and then it reports one cycle. -/
theorem resolve_finds_cycles (parse : TreeParser) (t : FileTree) (roots : List String)
    (files : FileSet) (alloc : Allocator) (entry : String) :
    let file := Path.absolute t.workDir entry
    let resolved := resolve t roots files alloc entry parse
    (∀ deeper, (visitWith (.plain t parse) t roots)^[t.entries.length + 1] deeper [] file =
      visit (.plain t parse) t roots (t.entries.length + 1) [] file) ∧
    (resolved.value.graph = none ↔
      ∃ a, ReflTransGen (Imports parse t roots) file a ∧ TransGen (Imports parse t roots) a a) ∧
    (resolved.value.graph = none → ReportsCycle parse t roots files file resolved.log) := by
  intro file resolved
  refine ⟨fun deeper => ?_, ?_⟩
  · rw [visit_eq_iterate]
    exact iterate_visitWith_congr _ _ _ _ _ (by simp) (trail_entry parse t roots entry)
  cases hcyclic : (searchFrom parse t roots files entry).value.2.cyclic with
  | true =>
      obtain ⟨hnone, hlog⟩ := resolve_of_cyclic alloc hcyclic
      have hreport := reportsCycle_of_cyclic hcyclic
      refine ⟨⟨fun _ => hreport.exists_transGen, fun _ => hnone⟩, fun _ => ?_⟩
      rw [hlog]
      exact hreport
  | false =>
      obtain ⟨g, hsome, _⟩ := resolve_of_not_cyclic alloc hcyclic
      have hne : resolved.value.graph ≠ none := by
        rw [hsome]
        exact Option.some_ne_none g
      refine ⟨⟨fun h => absurd h hne, ?_⟩, fun h => absurd h hne⟩
      rintro ⟨a, hreach, hcycle⟩
      exact absurd hcycle (not_transGen_of_acc (acc_entry hcyclic) hreach)

/-- A file that leads into a cycle of two others. -/
def ring : FileTree where
  workDir := "/r"
  entries :=
    [(["r"], .directory),
      (["r", "a"], .file (Bytes.ofString "imports:\n  x: ./b\n")),
      (["r", "b"], .file (Bytes.ofString "imports:\n  x: ./c\n")),
      (["r", "c"], .file (Bytes.ofString "imports:\n  x: ./b\n"))]
  rooted := rfl

theorem resolve_finds_cycles_ring :
    (resolve ring [] { workDir := "/r" } {} "a").value.graph = none ∧
    (resolve ring [] { workDir := "/r" } {} "a").log.map (·.message) =
      [.text "import cycle: b -> c -> b"] ∧
    ReportsCycle readTree ring [] { workDir := "/r" } "/r/a"
      (resolve ring [] { workDir := "/r" } {} "a").log ∧
    ∃ a, ReflTransGen (Imports readTree ring []) "/r/a" a ∧
      TransGen (Imports readTree ring []) a a := by
  have hnone : (resolve ring [] { workDir := "/r" } {} "a").value.graph = none := by
    rw [← Option.isNone_iff_eq_none]
    decide +kernel
  have hfile : Path.absolute ring.workDir "a" = "/r/a" := by decide +kernel
  obtain ⟨_, hcycle, hreports⟩ := resolve_finds_cycles readTree ring [] { workDir := "/r" } {} "a"
  rw [hfile] at hcycle hreports
  exact ⟨hnone, by decide +kernel, hreports hnone, hcycle.mp hnone⟩

/-! ## The shape of the graph -/

/-- The files that were loaded come in the order of a depth first search. -/
theorem preorder_of_not_cyclic
    (h : (searchFrom parse t roots files entry).value.2.cyclic = false) :
    Preorder (importedFiles parse t roots) []
      ([Path.absolute t.workDir entry].filter (t.Readable ·))
      ((searchFrom parse t roots files entry).value.2.nodes.map (·.path)) := by
  obtain ⟨new, hnew, hpre⟩ := (advances_of_not_cyclic h).order
  rw [← map_fst_numbers, hnew]
  exact hpre

theorem mem_paths_iff (h : (searchFrom parse t roots files entry).value.2.cyclic = false)
    {p : String} :
    p ∈ (searchFrom parse t roots files entry).value.2.nodes.map (·.path) ↔
      t.Readable p ∧ ReflTransGen (Imports parse t roots) (Path.absolute t.workDir entry) p := by
  have hrel : (fun a b => b ∈ importedFiles parse t roots a) = Imports parse t roots := by
    funext a b
    exact propext mem_importedFiles
  have hmem := (preorder_of_not_cyclic h).mem_iff (b := p)
  simp only [hrel, List.mem_filter, List.mem_singleton, decide_eq_true_iff] at hmem
  refine ⟨fun hp => ?_, fun ⟨hp, hreach⟩ => hmem.mpr ⟨_, ⟨rfl, ?_⟩, hreach⟩⟩
  · obtain ⟨a, ⟨rfl, _⟩, hreach⟩ := hmem.mp hp
    exact ⟨(advances_of_not_cyclic h).wellFormed.readable p hp, hreach⟩
  · -- an entry from which a readable file can be reached is readable
    rcases ReflTransGen.cases_head hreach with heq | ⟨b, hb, _⟩
    · rwa [heq]
    · exact hb.readable

/-- An edge leads from the number of a file to the number of another one. -/
def Follows (nodes : List FileNode) (a b : FileId) : Prop :=
  ∃ n ∈ nodes, n.id = a ∧ ∃ e ∈ n.imports, e.target = b

/-- Edges lead to loaded files that are imported. -/
theorem Search.WellFormed.exists_target {s : Search} (hs : s.WellFormed parse t roots files [])
    {n : FileNode} {e : ImportEdge} (hn : n ∈ s.nodes) (he : e ∈ n.imports) :
    ∃ m ∈ s.nodes, m.id = e.target ∧ Imports parse t roots n.path m.path := by
  obtain ⟨k, hk⟩ := List.mem_iff_getElem?.mp hn
  rw [(hs.settled n hn List.not_mem_nil).edges] at he
  obtain ⟨i, hi, hedge⟩ := List.mem_filterMap.mp he
  obtain ⟨file, hfile, hid⟩ := Option.bind_eq_some_iff.mp hedge
  obtain ⟨id, hlookup, rfl⟩ := Option.map_eq_some_iff.mp hid
  rw [lookup_numbers] at hlookup
  obtain ⟨m, hfind, rfl⟩ := Option.map_eq_some_iff.mp hlookup
  have hpath : m.path = file := by simpa using List.find?_some hfind
  have hm := List.mem_of_find?_eq_some hfind
  refine ⟨m, hm, rfl, imports_iff.mpr ⟨?_, ?_⟩⟩
  · rw [hpath, targetFiles, ← importsAt_of_loadedAs (hs.loaded k n hk)]
    exact List.mem_filterMap.mpr ⟨i.texts, List.mem_map_of_mem hi, hfile⟩
  · exact hs.readable _ (List.mem_map_of_mem hm)

theorem Search.WellFormed.toNat_id {s : Search} (hs : s.WellFormed parse t roots files [])
    (hempty : files.size = 0) (hsize : s.nodes.length ≤ 2 ^ 32) {k : Nat} {n : FileNode}
    (hk : s.nodes[k]? = some n) : n.id.toNat = k := by
  have hlt : k < 2 ^ 32 :=
    Nat.lt_of_lt_of_le (List.getElem?_eq_some_iff.mp hk).1 hsize
  rw [(hs.loaded k n hk).id_eq, hempty, Nat.zero_add]
  exact UInt32.toNat_ofNat_of_lt' hlt

theorem Search.WellFormed.eq_of_id_eq {s : Search} (hs : s.WellFormed parse t roots files [])
    (hempty : files.size = 0) (hsize : s.nodes.length ≤ 2 ^ 32) {n m : FileNode}
    (hn : n ∈ s.nodes) (hm : m ∈ s.nodes) (hid : n.id = m.id) : n = m := by
  obtain ⟨k, hk⟩ := List.mem_iff_getElem?.mp hn
  obtain ⟨l, hl⟩ := List.mem_iff_getElem?.mp hm
  have hkl : k = l := by
    rw [← hs.toNat_id hempty hsize hk, ← hs.toNat_id hempty hsize hl, hid]
  rw [hkl, hl] at hk
  exact (Option.some.inj hk).symm

/-- Where numbers do not wrap, a way along edges is a chain of imports. -/
theorem Search.WellFormed.transGen_imports {s : Search} (hs : s.WellFormed parse t roots files [])
    (hempty : files.size = 0) (hsize : s.nodes.length ≤ 2 ^ 32) {a b : FileId}
    (h : TransGen (Follows s.nodes) a b) :
    ∃ n ∈ s.nodes, ∃ m ∈ s.nodes, n.id = a ∧ m.id = b ∧
      TransGen (Imports parse t roots) n.path m.path := by
  induction h with
  | single hstep =>
      obtain ⟨n, hn, hna, e, he, rfl⟩ := hstep
      obtain ⟨m, hm, hmb, himports⟩ := hs.exists_target hn he
      exact ⟨n, hn, m, hm, hna, hmb, .single himports⟩
  | tail _ hstep ih =>
      obtain ⟨n, hn, c, hc, hna, hcb, hnc⟩ := ih
      obtain ⟨c', hc', hcb', e, he, rfl⟩ := hstep
      obtain ⟨m, hm, hmb, himports⟩ := hs.exists_target hc' he
      rw [hs.eq_of_id_eq hempty hsize hc' hc (hcb'.trans hcb.symm)] at himports
      exact ⟨n, hn, m, hm, hna, hmb, hnc.tail himports⟩

theorem Search.WellFormed.not_transGen_follows {s : Search}
    (hs : s.WellFormed parse t roots files [])
    (hempty : files.size = 0) (hsize : s.nodes.length ≤ 2 ^ 32) (a : FileId) :
    ¬ TransGen (Follows s.nodes) a a := by
  intro h
  obtain ⟨n, hn, m, hm, hna, hma, hcycle⟩ := hs.transGen_imports hempty hsize h
  rw [hs.eq_of_id_eq hempty hsize hm hn (hma.trans hna.symm)] at hcycle
  exact not_transGen_of_acc (hs.settled n hn List.not_mem_nil).acc .refl hcycle

/-- A graph lists the loadable files that can be reached from the entry, each of them once
and in the order of a depth first search.  Their numbers are their positions, their edges
are their valid imports in the order of declaration, and no way along edges leads back.  The
graph is marked as broken if an error was reported, and only then. -/
theorem resolve_graph_shape (parse : TreeParser) (t : FileTree) (roots : List String)
    (files : FileSet) (alloc : Allocator) (entry : String) (hempty : files.size = 0)
    (g : ImportGraph) (hg : (resolve t roots files alloc entry parse).value.graph = some g)
    (hsize : g.nodes.length ≤ 2 ^ 32) :
    let file := Path.absolute t.workDir entry
    let paths := g.nodes.map (·.path)
    paths.Nodup ∧
    (∀ p, p ∈ paths ↔ t.Readable p ∧ ReflTransGen (Imports parse t roots) file p) ∧
    (t.Readable file → Preorder (importedFiles parse t roots) [] [file] paths) ∧
    (∀ k n, g.nodes[k]? = some n →
      n.id.toNat = k ∧ LoadedAs parse t g.files k n ∧
      n.imports = edgesOf t roots (numbers g.nodes) n ∧
      ∀ e ∈ n.imports, ∃ m ∈ g.nodes, m.id = e.target) ∧
    (∀ a, ¬ TransGen (Follows g.nodes) a a) ∧
    (g.broken = true ↔ ∃ d ∈ (resolve t roots files alloc entry parse).log, d.isError = true) := by
  intro file paths
  cases hcyclic : (searchFrom parse t roots files entry).value.2.cyclic with
  | true =>
      rw [(resolve_of_cyclic alloc hcyclic).1] at hg
      cases hg
  | false =>
      obtain ⟨g', hg', hnodes, hfiles, hbroken⟩ := resolve_of_not_cyclic alloc hcyclic
      rw [hg'] at hg
      cases hg
      have hs := (advances_of_not_cyclic hcyclic).wellFormed
      have horder := preorder_of_not_cyclic hcyclic
      rw [hnodes] at hsize
      simp only [paths, file, hnodes, hfiles, hbroken]
      refine ⟨hs.nodup, fun p => mem_paths_iff hcyclic, fun hread => ?_,
        fun k n hk => ?_, hs.not_transGen_follows hempty hsize, by simp [Logged.hasErrors]⟩
      · rwa [List.filter_singleton, decide_eq_true hread] at horder
      have hn := List.mem_of_getElem? hk
      have hloaded := hs.loaded k n hk
      rw [hempty, Nat.zero_add] at hloaded
      refine ⟨hs.toNat_id hempty hsize hk, hloaded, (hs.settled n hn List.not_mem_nil).edges, ?_⟩
      intro e he
      obtain ⟨m, hm, hid, _⟩ := hs.exists_target hn he
      exact ⟨m, hm, hid⟩

/-- A tree in which a file is imported twice, one import leads nowhere and one to a file that
may not be opened. -/
def diamond : FileTree where
  workDir := "/w"
  entries :=
    [(["w"], .directory),
      (["w", "a"], .file (Bytes.ofString "imports:\n  x: ./b\n  y: ./c\n  z: ./d\n  v: ./e\n")),
      (["w", "b"], .file (Bytes.ofString "imports:\n  x: ./c\n")),
      (["w", "c"], .file (Bytes.ofString "modules: \x7b\x7d\n")),
      (["w", "e"], .sealed)]
  rooted := rfl

theorem resolve_graph_shape_diamond :
    ∃ g, (resolve diamond [] { workDir := "/w" } {} "a").value.graph = some g ∧
      g.nodes.map (·.path) = ["/w/a", "/w/b", "/w/c"] ∧ g.broken = true ∧
      (∀ a, ¬ TransGen (Follows g.nodes) a a) := by
  obtain ⟨g, hg⟩ := Option.isSome_iff_exists.mp
    (show (resolve diamond [] { workDir := "/w" } {} "a").value.graph.isSome = true by
      decide +kernel)
  have hshown : (resolve diamond [] { workDir := "/w" } {} "a").value.graph.map
      (fun g => (g.nodes.map (·.path), g.broken)) = some (["/w/a", "/w/b", "/w/c"], true) := by
    decide +kernel
  rw [hg] at hshown
  obtain ⟨hpaths, hbroken⟩ := Prod.mk.inj (Option.some.inj hshown)
  have hlength : g.nodes.length = 3 := by rw [← List.length_map (·.path), hpaths]; rfl
  obtain ⟨_, _, _, _, hacyclic, _⟩ :=
    resolve_graph_shape readTree diamond [] { workDir := "/w" } {} "a" rfl g hg (by omega)
  exact ⟨g, hg, hpaths, hbroken, hacyclic⟩

end Netlist.Import
