import Netlist.Proofs.Elaborate.Verdict

/-!
# What is left for the verifier

Building and atomizing keep their promises to the verifier: the top module and every definition
that an instance refers to are there, endpoints stay inside their module, no port is bound to two
nets and every port is the name of a net.  On the program of a graph that was loaded, the verifier
can find only conflicts that the design itself declares (`verify_reports_conflicts`).
-/

namespace Netlist

/-- The codes of conflicts that a design can declare: nets, instances or ports of the same name,
modules that contain themselves, and ports that a definition does not have. -/
def Code.conflicts : List Code :=
  [.duplicateNet, .duplicateInstance, .duplicatePort, .recursiveInstance, .undeclaredPort]

/-- What is found in a module that is placed is a conflict, unless the nets of the module ran out of
identifiers. -/
theorem Module.Finds.code {p : Program} {m : Module} {f : Finding} (h : m.Finds p f) {r : Region}
    {refs : Ref → Prop} (hm : m.Placed r refs) (hrefs : ∀ ref, refs ref → p.Defines ref) :
    f.1.code ∈ Code.conflicts ∨ (f.1.code = .unbackedPort ∧ idLimit ≤ m.nets.size) := by
  cases h with
  | duplicateNet | duplicateInstance | undeclaredPort | duplicatePort =>
      exact .inl (by simp [Code.conflicts, Violation.code])
  | unknownDefinition hi hdefines =>
      obtain ⟨k, hk⟩ := IdMap.mem_items.mp hi
      exact absurd (hrefs _ (hm.inst k _ hk).2) hdefines
  | danglingNet he hnet =>
      obtain ⟨k, hk⟩ := IdMap.mem_items.mp he
      exact absurd (hm.endpoint k _ hk).2.1 hnet
  | danglingInstance he hinst =>
      obtain ⟨k, hk⟩ := IdMap.mem_items.mp he
      exact absurd (hm.endpoint k _ hk).2.2 hinst
  | portBoundTwice he hfirst hinst hport hnet =>
      obtain ⟨k₁, hk₁⟩ := IdMap.mem_items.mp hfirst
      obtain ⟨k₂, hk₂⟩ := IdMap.mem_items.mp he
      exact absurd (hm.one_net k₁ k₂ _ _ hk₁ hk₂ hinst hport) hnet
  | unbackedPort hport hnet =>
      refine .inr ⟨rfl, Nat.le_of_not_lt fun hsize => ?_⟩
      obtain ⟨n, hn, hname⟩ := hm.port_net hsize _ hport
      exact hnet n hn hname

namespace Design

/-- What a design declares is defined by the program that its modules make up. -/
theorem defines_programOf {design : Design} {modules : List Module}
    (hids : modules.map (·.id) = design.modules.map (·.id)) {ref : Ref}
    (h : Declares design.modules design.devices ref) : (design.programOf modules).Defines ref := by
  rcases h with ⟨hkind, m, hm, hid⟩ | ⟨hkind, d, hd, hid⟩
  · have hmem : ref.id ∈ modules.map (·.id) := by
      rw [hids]
      exact List.mem_map.mpr ⟨m, hm, hid⟩
    exact .inl ⟨hkind, IdMap.mem_ofItems.mpr (List.mem_map.mp hmem)⟩
  · exact .inr ⟨hkind, IdMap.mem_ofItems.mpr ⟨d, hd, hid⟩⟩

/-- The verifier finds conflicts only in the program of a closed design. -/
theorem Closed.code_verify {r : Region} {design : Design} (hdesign : design.Closed r)
    (alloc : Allocator) (maxAtoms : Int) :
    let modules := (atomizeModules design maxAtoms alloc design.modules).value.1
    ∀ d ∈ (design.programOf modules).verify.log, d.code ∈ Code.conflicts ∨
      (d.code = .unbackedPort ∧ ∃ m ∈ modules, idLimit ≤ m.nets.size) := by
  intro modules d hd
  obtain ⟨hids, hplaced⟩ := (hdesign.ensures_atomizeModules alloc maxAtoms).result
  obtain ⟨f, hf, rfl⟩ := List.mem_map.mp hd
  cases Program.finds_of_mem_violations hf with
  | missingTop htop =>
      have hdeclares : Declares design.modules design.devices ⟨.module_, design.top, ""⟩ :=
        .inl ⟨rfl, hdesign.top⟩
      rcases defines_programOf hids hdeclares with ⟨_, hmem⟩ | ⟨hkind, _⟩
      · exact absurd hmem htop
      · cases hkind
  | inModule hm hf =>
      have hmem := (IdMap.mem_of_getElem?_ofItems hm).1
      rcases hf.code (hplaced _ hmem) fun _ => defines_programOf hids with hcode | ⟨hcode, hsize⟩
      · exact .inl hcode
      · exact .inr ⟨hcode, _, hmem, hsize⟩
  | recursive hm cycle =>
      exact .inl (by simp [Code.conflicts, Violation.code, Violation.at_, Diagnostic.error])

end Design

/-- Whatever graph loading gives, building and atomizing it report no internal error, and on the
program that is made the verifier reports nothing but conflicts that the design declares.  A port
without a net takes a module with more nets than there are identifiers for them. -/
theorem verify_reports_conflicts (read : Import.Reading) (t : FileTree) (roots : List String)
    (files : FileSet) (alloc : Allocator) (entry : String) {graph : ImportGraph}
    (hgraph : (Import.resolveWith read t roots files alloc entry).value.graph = some graph)
    (alloc' : Allocator) (maxAtoms : Int) :
    (∀ d ∈ (compile graph alloc' maxAtoms).log, d.code ≠ .internalError) ∧
      ∀ design alloc'', (buildGraph graph alloc').value = (some design, alloc'') →
        let modules := (atomizeModules design maxAtoms alloc'' design.modules).value.1
        ∀ d ∈ (design.programOf modules).verify.log, d.code ∈ Code.conflicts ∨
          (d.code = .unbackedPort ∧ ∃ m ∈ modules, idLimit ≤ m.nets.size) := by
  have hjoins := (Import.ensures_resolveWith read t roots files alloc entry
    (FileSet.within_region _)).result graph hgraph
  refine ⟨fun d hd => (reports_compile hjoins alloc' maxAtoms d hd).code, ?_⟩
  intro design alloc'' hbuilt
  have hclosed := (ensures_buildGraph hjoins alloc').result design (by rw [hbuilt])
  exact hclosed.code_verify alloc'' maxAtoms

/-- A tree of one file, whose module declares a net twice. -/
def netTwice : FileTree where
  workDir := "/twice"
  entries :=
    [(["twice"], .directory),
      (["twice", "a"],
        .file (Bytes.ofString "modules:\n  m:\n    nets:\n      a: []\n      a;b: []\n"))]
  rooted := rfl

theorem verify_reports_conflicts_netTwice :
    ∃ graph design alloc m,
      (Import.resolve netTwice [] { workDir := "/twice" } {} "a").value.graph = some graph ∧
      graph.broken = false ∧ (buildGraph graph {}).value = (some design, alloc) ∧
      (atomizeModules design 0 alloc design.modules).hasErrors = false ∧
      (atomizeModules design 0 alloc design.modules).value.1 = [m] ∧
      m.nets.items.map (·.name) = ["a", "a", "b"] ∧
      (∀ d ∈ (compile graph {} 0).log, d.code ≠ .internalError) ∧
      (design.programOf [m]).verify.log ≠ [] ∧
      ∀ d ∈ (design.programOf [m]).verify.log, d.code ∈ Code.conflicts := by
  have hrun : ((Import.resolve netTwice [] { workDir := "/twice" } {} "a").value.graph.bind fun g =>
      (buildGraph g {}).value.1.map fun design =>
        let atomized := atomizeModules design 0 (buildGraph g {}).value.2 design.modules
        (g.broken, atomized.hasErrors, atomized.value.1.map fun m => m.nets.items.map (·.name))) =
      some (false, false, [["a", "a", "b"]]) := by
    decide +kernel
  obtain ⟨graph, hgraph, hrun⟩ := Option.bind_eq_some_iff.mp hrun
  obtain ⟨design, hdesign, hrun⟩ := Option.map_eq_some_iff.mp hrun
  obtain ⟨hbroken, hrun⟩ := Prod.mk.inj hrun
  obtain ⟨hclean, hrun⟩ := Prod.mk.inj hrun
  obtain ⟨m, hmodules, hnames⟩ := List.map_eq_singleton_iff.mp hrun
  have hbuilt : (buildGraph graph {}).value = (some design, (buildGraph graph {}).value.2) :=
    Prod.ext hdesign rfl
  obtain ⟨hinternal, hcodes⟩ := verify_reports_conflicts _ _ _ _ _ _ hgraph {} 0
  have hcodes := hcodes design _ hbuilt
  rw [hmodules] at hcodes
  refine ⟨graph, design, _, m, hgraph, hbroken, hbuilt, hclean, hmodules, hnames, hinternal,
    fun hlog => ?_, fun d hd => ?_⟩
  · -- two nets have the same name, so the program is not sound
    have hsound := (Program.violations_eq_nil_iff _).mp (List.map_eq_nil_iff.mp hlog)
    have hm := hsound.modules m.id m (Design.getElem?_programOf_singleton.mpr ⟨rfl, rfl⟩)
    have hnodup := (IdMap.nodup_map_items_iff Net.name).mpr hm.net_name
    rw [hnames] at hnodup
    revert hnodup
    decide
  · rcases hcodes d hd with hcode | ⟨_, m', hm', hsize⟩
    · exact hcode
    · have hlength := congrArg List.length hnames
      rw [List.length_map, IdMap.length_items, Std.ExtTreeMap.length_keys] at hlength
      rw [List.mem_singleton.mp hm', hlength] at hsize
      exact absurd hsize (by decide)

end Netlist
