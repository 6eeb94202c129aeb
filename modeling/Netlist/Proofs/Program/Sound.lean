import Netlist.Proofs.Hierarchy.Instantiation
import Netlist.Program.Verify

/-!
# The verifier finds all and only unsound programs

`Program.Sound` says what a program has to satisfy, without the verifier.  Each of the
four passes over a module lists nothing exactly when its part of `Module.Sound`
holds.  A pass stops looking at a thing after some violations, so each statement
about a pass speaks of the whole list and of what has been seen before it:
then a check that is left out is always behind a violation that is listed.
-/

namespace Netlist

/-! ## Sound programs -/

namespace Program

/-- A reference leads to a module or a device of the program. -/
def Defines (p : Program) (r : Ref) : Prop :=
  (r.kind = .module_ ∧ r.id ∈ p.modules) ∨ (r.kind = .device ∧ r.id ∈ p.devices)

/-- What a reference leads to has a port. -/
def HasPort (p : Program) (r : Ref) (port : String) : Prop :=
  (r.kind = .module_ ∧ ∃ m, p.modules[r.id]? = some m ∧ port ∈ m.portList) ∨
    (r.kind = .device ∧ ∃ d, p.devices[r.id]? = some d ∧ port ∈ d.portList)

end Program

/-- A module that is sound inside a program. -/
structure Module.Sound (p : Program) (m : Module) : Prop where
  /-- No two nets have the same name. -/
  net_name : ∀ (k₁ k₂ : Ident) (n₁ n₂ : Net), m.nets[k₁]? = some n₁ → m.nets[k₂]? = some n₂ →
    n₁.name = n₂.name → k₁ = k₂
  /-- No two instances have the same name. -/
  instance_name : ∀ (k₁ k₂ : Ident) (i₁ i₂ : Instance), m.instances[k₁]? = some i₁ →
    m.instances[k₂]? = some i₂ → i₁.name = i₂.name → k₁ = k₂
  /-- Every instance is one of a module or a device. -/
  defines : ∀ (k : Ident) (i : Instance), m.instances[k]? = some i → p.Defines i.ref
  /-- Every endpoint joins a net of the module to a port of an instance of the module. -/
  endpoint : ∀ (k : Ident) (e : Endpoint), m.endpoints[k]? = some e →
    e.net ∈ m.nets ∧ ∃ i, m.instances[e.inst]? = some i ∧ p.HasPort i.ref e.port
  /-- No port of an instance is joined to two nets. -/
  one_net : ∀ (k₁ k₂ : Ident) (e₁ e₂ : Endpoint), m.endpoints[k₁]? = some e₁ →
    m.endpoints[k₂]? = some e₂ → e₁.inst = e₂.inst → e₁.port = e₂.port → e₁.net = e₂.net
  /-- No port is listed twice. -/
  ports_nodup : m.portList.Nodup
  /-- Every port is the name of a net. -/
  port_net : ∀ port ∈ m.portList, ∃ (k : Ident) (n : Net), m.nets[k]? = some n ∧ n.name = port

/-- A sound program. -/
structure Program.Sound (p : Program) : Prop where
  /-- The top module is one of the program. -/
  top : p.top ∈ p.modules
  /-- Every module is sound. -/
  modules : ∀ (k : Ident) (m : Module), p.modules[k]? = some m → m.Sound p
  /-- No module contains itself, directly or through others. -/
  acyclic : ∀ a, ¬ Relation.TransGen p.Instantiates a a

/-! ## References -/

theorem RefKind.device_ne_module : RefKind.device ≠ RefKind.module_ := by decide

theorem Program.isSome_portsOf?_iff {p : Program} {r : Ref} :
    (p.portsOf? r).isSome = true ↔ p.Defines r := by
  rw [portsOf?, Defines]
  by_cases hm : r.kind = .module_
  · simp [hm, RefKind.device_ne_module.symm]
  · by_cases hd : r.kind = .device
    · simp [hd, RefKind.device_ne_module]
    · simp [hm, hd]

/-- The ports of a definition hold a port exactly when the definition has it. -/
theorem Program.hasPort_iff {p : Program} {r : Ref} {port : String} :
    p.HasPort r port ↔ ∃ ports, p.portsOf? r = some ports ∧ port ∈ ports := by
  rw [portsOf?, HasPort]
  by_cases hm : r.kind = .module_
  · simp [hm, RefKind.device_ne_module.symm]
  · by_cases hd : r.kind = .device
    · simp [hd, RefKind.device_ne_module]
    · simp [hm, hd]

/-! ## The four passes over a module -/

namespace Module

theorem netViolations_eq_nil_iff (modul : String) : ∀ (nets : List Net)
    (seen : Std.HashMap String Net), netViolations modul seen nets = [] ↔
      (∀ n ∈ nets, n.name ∉ seen) ∧ (nets.map (·.name)).Nodup
  | [], seen => by simp [netViolations]
  | n :: nets, seen => by
      rw [netViolations]
      by_cases hn : n.name ∈ seen
      · simp [hn]
      · rw [Std.HashMap.getElem?_eq_none hn]
        simp only [netViolations_eq_nil_iff modul nets, Std.HashMap.mem_insert, beq_iff_eq, not_or,
          List.mem_cons, forall_eq_or_imp, hn, not_false_eq_true, true_and, List.map_cons,
          List.nodup_cons, List.mem_map, not_exists, not_and]
        constructor
        · rintro ⟨hseen, hnd⟩
          exact ⟨fun x hx => (hseen x hx).2, fun x hx h => (hseen x hx).1 h.symm, hnd⟩
        · rintro ⟨hseen, hnew, hnd⟩
          exact ⟨fun x hx => ⟨fun h => hnew x hx h.symm, hseen x hx⟩, hnd⟩

theorem instanceViolations_eq_nil_iff (p : Program) (modul : String) :
    ∀ (insts : List Instance) (seen : Std.HashMap String Instance),
      instanceViolations p modul seen insts = [] ↔
        (∀ i ∈ insts, i.name ∉ seen) ∧ (insts.map (·.name)).Nodup ∧ ∀ i ∈ insts, p.Defines i.ref
  | [], seen => by simp [instanceViolations]
  | i :: insts, seen => by
      rw [instanceViolations]
      by_cases hi : i.name ∈ seen
      · simp [hi]
      · have hunknown : (if (p.portsOf? i.ref).isSome then []
            else [(Violation.unknownDefinition i.name i.ref, i.span)]) = [] ↔ p.Defines i.ref := by
          rw [← Program.isSome_portsOf?_iff]
          split <;> simp_all
        rw [Std.HashMap.getElem?_eq_none hi]
        simp only [List.append_eq_nil_iff, hunknown, instanceViolations_eq_nil_iff p modul insts,
          Std.HashMap.mem_insert, beq_iff_eq, not_or, List.mem_cons, forall_eq_or_imp, hi,
          not_false_eq_true, true_and, List.map_cons, List.nodup_cons, List.mem_map, not_exists,
          not_and]
        constructor
        · rintro ⟨hdef, hseen, hnd, hdefs⟩
          exact ⟨fun x hx => (hseen x hx).2, ⟨fun x hx h => (hseen x hx).1 h.symm, hnd⟩, hdef,
            hdefs⟩
        · rintro ⟨hseen, ⟨hnew, hnd⟩, hdef, hdefs⟩
          exact ⟨hdef, fun x hx => ⟨fun h => hnew x hx h.symm, hseen x hx⟩, hnd, hdefs⟩

/-- An endpoint inside a module that names a port of its instance, if the definition of
the instance is known. -/
def GoodEndpoint (p : Program) (m : Module) (e : Endpoint) : Prop :=
  ∃ net inst, m.nets[e.net]? = some net ∧ m.instances[e.inst]? = some inst ∧
    ∀ ports, p.portsOf? inst.ref = some ports → e.port ∈ ports

/-- Two endpoints at the same port are at the same net. -/
def SameNet (e f : Endpoint) : Prop := e.inst = f.inst → e.port = f.port → e.net = f.net

/-- Endpoints at ports that are bound already are at the same nets. -/
def Agrees (bound : Std.HashMap (Ident × String) Endpoint) (eps : List Endpoint) : Prop :=
  ∀ e ∈ eps, ∀ first, bound[(e.inst, e.port)]? = some first → first.net = e.net

/-- Binding a port once more, to the same net, asks of later endpoints only that they
agree with this one. -/
theorem agrees_insert {bound : Std.HashMap (Ident × String) Endpoint} {e : Endpoint}
    (he : ∀ first, bound[(e.inst, e.port)]? = some first → first.net = e.net)
    (eps : List Endpoint) :
    Agrees (bound.insert (e.inst, e.port) e) eps ↔ Agrees bound eps ∧ ∀ x ∈ eps, SameNet e x := by
  have hlookup : ∀ x : Endpoint, (bound.insert (e.inst, e.port) e)[(x.inst, x.port)]? =
      if e.inst = x.inst ∧ e.port = x.port then some e else bound[(x.inst, x.port)]? := by
    intro x
    simp [Std.HashMap.getElem?_insert]
  constructor
  · intro h
    have hnew : ∀ x ∈ eps, SameNet e x := by
      intro x hx hi hp
      exact h x hx e (by rw [hlookup, if_pos ⟨hi, hp⟩])
    refine ⟨fun x hx first hf => ?_, hnew⟩
    by_cases hxe : e.inst = x.inst ∧ e.port = x.port
    · rw [← hxe.1, ← hxe.2] at hf
      exact (he first hf).trans (hnew x hx hxe.1 hxe.2)
    · exact h x hx first (by rw [hlookup, if_neg hxe, hf])
  · rintro ⟨hold, hnew⟩ x hx first hf
    rw [hlookup] at hf
    by_cases hxe : e.inst = x.inst ∧ e.port = x.port
    · rw [if_pos hxe] at hf
      rw [← Option.some.inj hf]
      exact hnew x hx hxe.1 hxe.2
    · rw [if_neg hxe] at hf
      exact hold x hx first hf

theorem endpointViolations_eq_nil_iff (p : Program) (m : Module) : ∀ (eps : List Endpoint)
    (bound : Std.HashMap (Ident × String) Endpoint), endpointViolations p m bound eps = [] ↔
      (∀ e ∈ eps, GoodEndpoint p m e) ∧ Agrees bound eps ∧ eps.Pairwise SameNet
  | [], bound => by simp [endpointViolations, Agrees]
  | e :: eps, bound => by
      rw [endpointViolations]
      cases hnet : m.nets[e.net]? with
      | none => simp [GoodEndpoint, hnet]
      | some net =>
          cases hinst : m.instances[e.inst]? with
          | none => simp [GoodEndpoint, hinst]
          | some inst =>
              cases hb : (bound[(e.inst, e.port)]?).filter (·.net != e.net) with
              | some first =>
                  obtain ⟨hfirst, hne⟩ := Option.filter_eq_some_iff.mp hb
                  simp only [List.append_eq_nil_iff, reduceCtorEq, and_false, false_iff, not_and]
                  intro _ hbound
                  exact absurd (hbound e (List.mem_cons_self ..) first hfirst) (by simpa using hne)
              | none =>
                  have hsame : ∀ first, bound[(e.inst, e.port)]? = some first →
                      first.net = e.net := by
                    intro first hfirst
                    rw [hfirst] at hb
                    simpa using hb
                  have hbound : Agrees bound (e :: eps) ↔ Agrees bound eps := by
                    rw [Agrees, List.forall_mem_cons]
                    exact and_iff_right hsame
                  simp only [List.append_eq_nil_iff, endpointViolations_eq_nil_iff p m eps,
                    agrees_insert hsame, hbound, List.forall_mem_cons, List.pairwise_cons]
                  -- the port is checked against the definition, when there is one
                  refine (and_congr (c := GoodEndpoint p m e) ?_ Iff.rfl).trans ?_
                  · simp only [GoodEndpoint, hnet, hinst, Option.some.injEq, exists_eq_left',
                      exists_and_left]
                    cases p.portsOf? inst.ref <;> simp
                  · tauto

theorem portViolations_eq_nil_iff (m : Module) (names : Std.HashSet String) :
    ∀ (ports : List String) (seen : Std.HashSet String), portViolations m names seen ports = [] ↔
      (∀ q ∈ ports, q ∉ seen) ∧ ports.Nodup ∧ ∀ q ∈ ports, q ∈ names
  | [], seen => by simp [portViolations]
  | port :: ports, seen => by
      have ih := portViolations_eq_nil_iff m names ports (seen.insert port)
      rw [portViolations]
      by_cases hs : port ∈ seen
      · simp [hs]
      · have hunbacked : (if names.contains port then []
            else [(Violation.unbackedPort port m.name, m.span)]) = [] ↔ port ∈ names := by
          rw [← Std.HashSet.contains_iff_mem]
          split <;> simp_all
        rw [if_neg (by simpa using hs)]
        simp only [List.append_eq_nil_iff, hunbacked, ih, List.mem_cons, forall_eq_or_imp,
          List.nodup_cons, Std.HashSet.mem_insert, beq_iff_eq, not_or, hs, not_false_eq_true,
          true_and]
        constructor
        · rintro ⟨hn, hseen, hnd, hns⟩
          exact ⟨fun q hq => (hseen q hq).2, ⟨fun h => (hseen port h).1 rfl, hnd⟩, hn, hns⟩
        · rintro ⟨hseen, ⟨hnew, hnd⟩, hn, hns⟩
          exact ⟨hn, fun q hq => ⟨fun h => hnew (h ▸ hq), hseen q hq⟩, hnd, hns⟩

/-- A module has no violations exactly when it is sound. -/
theorem violations_eq_nil_iff (p : Program) (m : Module) : violations p m = [] ↔ m.Sound p := by
  have hempty : ∀ q : String, q ∉ (∅ : Std.HashSet String) := fun q => Std.HashSet.not_mem_empty
  rw [violations, List.append_eq_nil_iff, List.append_eq_nil_iff, List.append_eq_nil_iff,
    netViolations_eq_nil_iff, instanceViolations_eq_nil_iff, endpointViolations_eq_nil_iff,
    portViolations_eq_nil_iff, IdMap.nodup_map_items_iff, IdMap.nodup_map_items_iff,
    IdMap.pairwise_items_iff (fun _ _ h hi hp => (h hi.symm hp.symm).symm) (fun _ _ _ => rfl)]
  constructor
  · rintro ⟨⟨⟨⟨_, hnets⟩, _, hinsts, hdefs⟩, hgood, _, hone⟩, _, hnd, hnames⟩
    refine ⟨hnets, hinsts, fun k i hk => hdefs i (IdMap.mem_items.mpr ⟨k, hk⟩), fun k e hk => ?_,
      hone, hnd, fun q hq => ?_⟩
    · obtain ⟨net, inst, hnet, hinst, hports⟩ := hgood e (IdMap.mem_items.mpr ⟨k, hk⟩)
      refine ⟨Std.ExtTreeMap.mem_iff_isSome_getElem?.mpr (Option.isSome_of_eq_some hnet), inst,
        hinst, Program.hasPort_iff.mpr ?_⟩
      have hdef := hdefs inst (IdMap.mem_items.mpr ⟨e.inst, hinst⟩)
      obtain ⟨ports, hp⟩ := Option.isSome_iff_exists.mp (Program.isSome_portsOf?_iff.mpr hdef)
      exact ⟨ports, hp, hports ports hp⟩
    · obtain ⟨n, hn, rfl⟩ := List.mem_map.mp (by simpa using hnames q hq)
      obtain ⟨k, hk⟩ := IdMap.mem_items.mp hn
      exact ⟨k, n, hk, rfl⟩
  · rintro ⟨hnets, hinsts, hdefs, heps, hone, hnd, hports⟩
    refine ⟨⟨⟨⟨by simp, hnets⟩, by simp, hinsts, fun i hi => ?_⟩, fun e he => ?_, ?_, hone⟩,
      fun q _ => hempty q, hnd, fun q hq => ?_⟩
    · obtain ⟨k, hk⟩ := IdMap.mem_items.mp hi
      exact hdefs k i hk
    · obtain ⟨k, hk⟩ := IdMap.mem_items.mp he
      obtain ⟨hnet, inst, hinst, hport⟩ := heps k e hk
      obtain ⟨net, hnet⟩ :=
        Option.isSome_iff_exists.mp (Std.ExtTreeMap.mem_iff_isSome_getElem?.mp hnet)
      obtain ⟨ports, hp, hmem⟩ := Program.hasPort_iff.mp hport
      refine ⟨net, inst, hnet, hinst, fun ports' hp' => ?_⟩
      rwa [Option.some.inj (hp'.symm.trans hp)]
    · intro e _ first hf
      simp at hf
    · obtain ⟨k, n, hk, rfl⟩ := hports q hq
      simpa using ⟨n, IdMap.mem_items.mpr ⟨k, hk⟩, rfl⟩

end Module

/-! ## The whole program -/

namespace Program

/-- No cycle is listed exactly when no module contains itself. -/
theorem cycleViolations_eq_nil_iff (p : Program) :
    p.cycleViolations = [] ↔ ∀ a, ¬ Relation.TransGen p.Instantiates a a := by
  have hg := Hierarchy.graph_wellFormed p
  have hall : ∀ n ∈ (Hierarchy.order (Hierarchy.graph p)).cycles,
      (p.modules.items[n]?).isSome = true := by
    intro n hn
    have hlt := ((Hierarchy.mem_cycles_iff hg).mp hn).lt
    rw [Hierarchy.size_graph, Hierarchy.index, ← IdMap.length_items] at hlt
    rw [List.getElem?_eq_getElem hlt]
    rfl
  have hnil : p.cycleViolations = [] ↔ (Hierarchy.order (Hierarchy.graph p)).cycles = [] := by
    simp only [cycleViolations, List.map_eq_nil_iff, List.filterMap_eq_nil_iff]
    constructor
    · intro h
      refine List.eq_nil_iff_forall_not_mem.mpr fun n hn => ?_
      have := hall n hn
      rw [h n hn] at this
      cases this
    · intro h n hn
      rw [h] at hn
      cases hn
  rw [hnil, Hierarchy.cycles_eq_nil_iff hg, ← not_exists, ← not_exists,
    Hierarchy.exists_onCycle_graph_iff]

/-- No module has a violation exactly when all of them are sound. -/
theorem moduleViolations_eq_nil_iff (p : Program) :
    p.modules.items.flatMap (Module.violations p) = [] ↔
      ∀ (k : Ident) (m : Module), p.modules[k]? = some m → m.Sound p := by
  rw [List.flatMap_eq_nil_iff]
  constructor
  · intro h k m hk
    exact (Module.violations_eq_nil_iff p m).mp (h m (IdMap.mem_items.mpr ⟨k, hk⟩))
  · intro h m hm
    obtain ⟨k, hk⟩ := IdMap.mem_items.mp hm
    exact (Module.violations_eq_nil_iff p m).mpr (h k m hk)

/-- A program has no violations exactly when it is sound. -/
theorem violations_eq_nil_iff (p : Program) : p.violations = [] ↔ p.Sound := by
  have htop : (if p.modules.contains p.top then []
      else [(Violation.missingTop p.top, Span.nowhere)]) = [] ↔ p.top ∈ p.modules := by
    rw [← Std.ExtTreeMap.contains_iff_mem]
    split <;> simp_all
  rw [violations, List.append_eq_nil_iff, List.append_eq_nil_iff, htop,
    moduleViolations_eq_nil_iff, cycleViolations_eq_nil_iff]
  constructor
  · rintro ⟨⟨htop, hmods⟩, hcyc⟩
    exact ⟨htop, hmods, hcyc⟩
  · rintro ⟨htop, hmods, hcyc⟩
    exact ⟨⟨htop, hmods⟩, hcyc⟩

/-- The verifier accepts a program exactly when it is sound. -/
theorem verify_eq_true_iff_sound (p : Program) : p.verify.value = true ↔ p.Sound := by
  rw [verify, List.isEmpty_iff, violations_eq_nil_iff]

end Program

end Netlist
