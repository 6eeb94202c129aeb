import Netlist.Proofs.Program.Sound

/-!
# What the verifier finds

Each finding of the verifier has its reason in the program: `Module.Finds p m` lists the rules for
the findings in a module, and `Program.Finds p` those for a program.  A pass carries tables of what
it has seen, which hold parts of the module only, so the places that a finding speaks of are places
of the module.
-/

namespace Netlist

/-- The rules for the findings in a module of a program. -/
inductive Module.Finds (p : Program) (m : Module) : Finding → Prop
  | duplicateNet {n first : Net} (hn : n ∈ m.nets.items) (hfirst : first ∈ m.nets.items) :
      Finds p m (.duplicateNet n.name m.name first.span, n.span)
  | duplicateInstance {i first : Instance} (hi : i ∈ m.instances.items)
      (hfirst : first ∈ m.instances.items) :
      Finds p m (.duplicateInstance i.name m.name first.span, i.span)
  | unknownDefinition {i : Instance} (hi : i ∈ m.instances.items) (hdefines : ¬ p.Defines i.ref) :
      Finds p m (.unknownDefinition i.name i.ref, i.span)
  | danglingNet {e : Endpoint} (he : e ∈ m.endpoints.items) (hnet : e.net ∉ m.nets) :
      Finds p m (.danglingNet e.id e.net m.name, e.span)
  | danglingInstance {e : Endpoint} (he : e ∈ m.endpoints.items) (hinst : e.inst ∉ m.instances) :
      Finds p m (.danglingInstance e.id e.inst m.name, e.span)
  | undeclaredPort {e : Endpoint} {i : Instance} (he : e ∈ m.endpoints.items)
      (hinst : m.instances[e.inst]? = some i) (hport : ¬ p.HasPort i.ref e.port) :
      Finds p m (.undeclaredPort i.ref e.port i.name, e.span)
  | portBoundTwice {e first : Endpoint} (he : e ∈ m.endpoints.items)
      (hfirst : first ∈ m.endpoints.items) (hinst : first.inst = e.inst)
      (hport : first.port = e.port) (hnet : first.net ≠ e.net) (inst firstNet secondNet : String) :
      Finds p m (.portBoundTwice inst e.port firstNet secondNet first.span, e.span)
  | duplicatePort (port : String) : Finds p m (.duplicatePort port m.name, m.span)
  | unbackedPort {port : String} (hport : port ∈ m.portList)
      (hnet : ∀ n ∈ m.nets.items, n.name ≠ port) : Finds p m (.unbackedPort port m.name, m.span)

/-- The rules for the findings in a program. -/
inductive Program.Finds (p : Program) : Finding → Prop
  | missingTop (htop : p.top ∉ p.modules) : Finds p (.missingTop p.top, Span.nowhere)
  | inModule {k : Ident} {m : Module} (hm : p.modules[k]? = some m) {f : Finding}
      (hf : m.Finds p f) : Finds p f
  | recursive {k : Ident} {m : Module} (hm : p.modules[k]? = some m) (cycle : List String) :
      Finds p (.recursive m.name cycle, m.span)

/-- What holds of each entry of a table holds of each when one more is put in. -/
theorem forall_getElem?_insert {κ α : Type} [BEq κ] [LawfulBEq κ] [Hashable κ] {P : κ → α → Prop}
    {seen : Std.HashMap κ α} (hseen : ∀ k a, seen[k]? = some a → P k a) {key : κ} {new : α}
    (hnew : P key new) : ∀ k a, (seen.insert key new)[k]? = some a → P k a := by
  intro k a h
  rw [Std.HashMap.getElem?_insert] at h
  split at h
  · next hkey =>
    cases h
    exact eq_of_beq hkey ▸ hnew
  · exact hseen k a h

namespace Module

variable {p : Program} {m : Module}

theorem finds_netViolations (nets : List Net) :
    nets ⊆ m.nets.items → ∀ seen : Std.HashMap String Net,
      (∀ (name : String) (n : Net), seen[name]? = some n → n ∈ m.nets.items) →
        ∀ f ∈ netViolations m.name seen nets, m.Finds p f := by
  induction nets with
  | nil =>
      intro _ seen _ f hf
      cases hf
  | cons n nets ih =>
      intro hnets seen hseen f hf
      obtain ⟨hn, hnets⟩ := List.cons_subset.mp hnets
      rw [netViolations] at hf
      split at hf
      · next first hfirst =>
        rcases List.mem_cons.mp hf with rfl | hf
        · exact .duplicateNet hn (hseen _ first hfirst)
        · exact ih hnets seen hseen f hf
      · exact ih hnets _ (forall_getElem?_insert hseen hn) f hf

theorem finds_instanceViolations (insts : List Instance) :
    insts ⊆ m.instances.items → ∀ seen : Std.HashMap String Instance,
      (∀ (name : String) (i : Instance), seen[name]? = some i → i ∈ m.instances.items) →
        ∀ f ∈ instanceViolations p m.name seen insts, m.Finds p f := by
  induction insts with
  | nil =>
      intro _ seen _ f hf
      cases hf
  | cons i insts ih =>
      intro hinsts seen hseen f hf
      obtain ⟨hi, hinsts⟩ := List.cons_subset.mp hinsts
      rw [instanceViolations] at hf
      split at hf
      · next first hfirst =>
        rcases List.mem_cons.mp hf with rfl | hf
        · exact .duplicateInstance hi (hseen _ first hfirst)
        · exact ih hinsts seen hseen f hf
      · rcases List.mem_append.mp hf with hf | hf
        · split at hf
          · cases hf
          · next hdefines =>
            rw [List.mem_singleton.mp hf]
            exact .unknownDefinition hi fun h => hdefines (Program.isSome_portsOf?_iff.mpr h)
        · exact ih hinsts _ (forall_getElem?_insert hseen hi) f hf

theorem finds_undeclaredPort {e : Endpoint} {i : Instance} {ports : List String}
    (he : e ∈ m.endpoints.items) (hinst : m.instances[e.inst]? = some i)
    (hports : p.portsOf? i.ref = some ports) (hport : ¬ ports.contains e.port = true) :
    m.Finds p (.undeclaredPort i.ref e.port i.name, e.span) := by
  refine .undeclaredPort he hinst fun h => hport ?_
  obtain ⟨ports', hports', hmem⟩ := Program.hasPort_iff.mp h
  rw [Option.some.inj (hports.symm.trans hports')]
  exact List.contains_iff_mem.mpr hmem

theorem finds_endpointViolations (eps : List Endpoint) :
    eps ⊆ m.endpoints.items → ∀ bound : Std.HashMap (Ident × String) Endpoint,
      (∀ (key : Ident × String) (e : Endpoint), bound[key]? = some e →
        e ∈ m.endpoints.items ∧ (e.inst, e.port) = key) →
        ∀ f ∈ endpointViolations p m bound eps, m.Finds p f := by
  induction eps with
  | nil =>
      intro _ bound _ f hf
      cases hf
  | cons e eps ih =>
      intro heps bound hbound f hf
      obtain ⟨he, heps⟩ := List.cons_subset.mp heps
      rw [endpointViolations] at hf
      split at hf
      · next hnet =>
        rcases List.mem_cons.mp hf with rfl | hf
        · exact .danglingNet he ((getElem?_eq_none_iff _ _).mp hnet)
        · exact ih heps bound hbound f hf
      · next hinst _ =>
        rcases List.mem_cons.mp hf with rfl | hf
        · exact .danglingInstance he ((getElem?_eq_none_iff _ _).mp hinst)
        · exact ih heps bound hbound f hf
      · next net inst _ hinst =>
        extract_lets undeclared at hf
        have hundeclared : ∀ g ∈ undeclared, m.Finds p g := by
          intro g hg
          dsimp only [undeclared] at hg
          split at hg
          · next ports hports =>
            split at hg
            · cases hg
            · next hport =>
              rw [List.mem_singleton.mp hg]
              exact finds_undeclaredPort he hinst hports hport
          · cases hg
        split at hf
        · next first hfirst =>
          rcases List.mem_append.mp hf with hf | hf
          · exact hundeclared f hf
          · rcases List.mem_cons.mp hf with rfl | hf
            · obtain ⟨hfirst, hne⟩ := Option.filter_eq_some_iff.mp hfirst
              obtain ⟨hmem, hkey⟩ := hbound _ first hfirst
              obtain ⟨hinst, hport⟩ := Prod.mk.inj hkey
              exact .portBoundTwice he hmem hinst hport (by simpa using hne) _ _ _
            · exact ih heps bound hbound f hf
        · rcases List.mem_append.mp hf with hf | hf
          · exact hundeclared f hf
          · exact ih heps _ (forall_getElem?_insert hbound ⟨he, rfl⟩) f hf

theorem finds_portViolations (ports : List String) :
    ports ⊆ m.portList → ∀ seen : Std.HashSet String,
      ∀ f ∈ portViolations m (Std.HashSet.ofList (m.nets.items.map (·.name))) seen ports,
        m.Finds p f := by
  induction ports with
  | nil =>
      intro _ seen f hf
      cases hf
  | cons port ports ih =>
      intro hports seen f hf
      obtain ⟨hport, hports⟩ := List.cons_subset.mp hports
      rw [portViolations] at hf
      split at hf
      · rcases List.mem_cons.mp hf with rfl | hf
        · exact .duplicatePort port
        · exact ih hports seen f hf
      · rcases List.mem_append.mp hf with hf | hf
        · split at hf
          · cases hf
          · next hnames =>
            rw [List.mem_singleton.mp hf]
            refine .unbackedPort hport fun n hn hname => hnames ?_
            simpa using ⟨n, hn, hname⟩
        · exact ih hports _ f hf

theorem finds_of_mem_violations {f : Finding} (hf : f ∈ violations p m) : m.Finds p f := by
  rw [violations] at hf
  simp only [List.mem_append] at hf
  rcases hf with ((hf | hf) | hf) | hf
  · exact finds_netViolations _ (List.Subset.refl _) ∅ (by simp) f hf
  · exact finds_instanceViolations _ (List.Subset.refl _) ∅ (by simp) f hf
  · exact finds_endpointViolations _ (List.Subset.refl _) ∅ (by simp) f hf
  · exact finds_portViolations _ (List.Subset.refl _) ∅ f hf

end Module

theorem Program.finds_of_mem_violations {p : Program} {f : Finding} (hf : f ∈ p.violations) :
    p.Finds f := by
  simp only [violations, List.mem_append, List.mem_flatMap] at hf
  rcases hf with (hf | ⟨m, hm, hf⟩) | hf
  · split at hf
    · cases hf
    · next htop =>
      rw [List.mem_singleton.mp hf]
      exact .missingTop fun h => htop (Std.ExtTreeMap.contains_iff_mem.mpr h)
  · obtain ⟨k, hk⟩ := IdMap.mem_items.mp hm
    exact .inModule hk (Module.finds_of_mem_violations hf)
  · obtain ⟨m, hm, rfl⟩ := List.mem_map.mp hf
    obtain ⟨n, _, hn⟩ := List.mem_filterMap.mp hm
    obtain ⟨k, hk⟩ := IdMap.mem_items.mp (List.mem_of_getElem? hn)
    exact .recursive hk _

end Netlist
