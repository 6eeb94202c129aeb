import Netlist.Atomize.Design
import Netlist.Proofs.Atomize.Run
import Netlist.Proofs.Program.Sound

/-!
# The connections of an atomized module

The endpoints of a module of an atomized program are a partial function from the ports of
its instances to its nets, and the declarations of the module say which
(`Module.Connected`): a port that an endpoint atom names goes to the net that the binding
gives this atom, and another port of an instance goes to the net of the first default binding
for it, if there is one.

The run of the module splits at the default bindings.  Before them exactly the ports that
endpoint atoms name are bound, and the default bindings leave these alone.
-/

namespace Netlist

open Pattern (Expansion EndpointAtom)

/-! ## What a module declares -/

namespace AtomizeInput

/-- A net declaration stands for `x`, and an endpoint expression under it, which stands at
`span`, for `y` with the endpoint atoms `atoms`. -/
def Declares (i : AtomizeInput) (x y : Expansion) (atoms : List EndpointAtom) (span : Span) :
    Prop :=
  ∃ d ∈ i.decl.nets, ∃ e, (i.expand d.expression d.isPort).value = some (e, x) ∧
    ∃ ep ∈ d.endpoints, ∃ e', i.expressions[ep.expression]? = some e' ∧ e'.span = span ∧
      (Pattern.expandEndpoint (i.options e' false) e'.raw).value = some (y, atoms)

/-- An endpoint atom of the module names a port of an instance. -/
def NamesPort (i : AtomizeInput) (inst port : String) : Prop :=
  ∃ x y atoms span, i.Declares x y atoms span ∧ ∃ a ∈ atoms, a.inst = inst ∧ a.port = port

/-- The default bindings for a definition, in the order of their declaration. -/
def defaultsOf (i : AtomizeInput) (definition : Ident) : List DesignBinding :=
  (i.decl.defaults.filter fun d => d.ref.id == definition).flatMap (·.bindings)

end AtomizeInput

/-- The endpoints of a module are the connections that are declared. -/
structure Module.Connected (i : AtomizeInput) (m : Module) : Prop where
  /-- Every net declaration and every endpoint expression stands for something, and they can be
  bound. -/
  complete : ∀ d ∈ i.decl.nets, ∃ e x, (i.expand d.expression d.isPort).value = some (e, x) ∧
    ∀ ep ∈ d.endpoints, ∃ e' y atoms b, i.expressions[ep.expression]? = some e' ∧
      (Pattern.expandEndpoint (i.options e' false) e'.raw).value = some (y, atoms) ∧
      (Axis.bindOrPair x y e'.span).value = some b
  /-- Every endpoint atom names an instance of the module. -/
  known : ∀ x y atoms span, i.Declares x y atoms span → ∀ a ∈ atoms,
    ∃ (k : Ident) (inst : Instance), m.instances[k]? = some inst ∧ inst.name = a.inst
  instance_name : ∀ (k₁ k₂ : Ident) (i₁ i₂ : Instance), m.instances[k₁]? = some i₁ →
    m.instances[k₂]? = some i₂ → i₁.name = i₂.name → k₁ = k₂
  net_name : ∀ (k₁ k₂ : Ident) (n₁ n₂ : Net), m.nets[k₁]? = some n₁ → m.nets[k₂]? = some n₂ →
    n₁.name = n₂.name → k₁ = k₂
  /-- An endpoint joins an instance and a net of the module. -/
  inside : ∀ (id : Ident) (e : Endpoint), m.endpoints[id]? = some e →
    e.inst ∈ m.instances ∧ e.net ∈ m.nets
  /-- A port of an instance has one endpoint at most. -/
  unique : ∀ (id₁ id₂ : Ident) (e₁ e₂ : Endpoint), m.endpoints[id₁]? = some e₁ →
    m.endpoints[id₂]? = some e₂ → e₁.inst = e₂.inst → e₁.port = e₂.port → id₁ = id₂
  /-- It has one exactly when an endpoint atom names it or there is a default binding for it. -/
  bound_iff : ∀ (k : Ident) (inst : Instance) (port : String), m.instances[k]? = some inst →
    ((∃ (id : Ident) (e : Endpoint), m.endpoints[id]? = some e ∧ e.inst = k ∧ e.port = port) ↔
      i.NamesPort inst.name port ∨ ∃ b ∈ i.defaultsOf inst.ref.id, b.port = port)
  /-- For every endpoint atom that names the port, the endpoint is not a default and goes to the
  net atom that the binding gives the endpoint atom. -/
  named : ∀ (id : Ident) (e : Endpoint) (inst : Instance), m.endpoints[id]? = some e →
    m.instances[e.inst]? = some inst → ∀ x y atoms span, i.Declares x y atoms span →
    ∀ (n : Nat) (a : EndpointAtom), atoms[n]? = some a → a.inst = inst.name → a.port = e.port →
      e.isDefault = false ∧ ∃ (b : Axis.Binding) (k : Nat) (atom : Pattern.Atom) (net : Net),
        (Axis.bindOrPair x y span).value = some b ∧ b.netIndex[n]? = some k ∧
        x.atoms[k]? = some atom ∧ m.nets[e.net]? = some net ∧ net.name = atom.literal
  /-- When no endpoint atom names the port, the endpoint is a default and goes to the net that the
  first default binding for the port names. -/
  default : ∀ (id : Ident) (e : Endpoint) (inst : Instance), m.endpoints[id]? = some e →
    m.instances[e.inst]? = some inst → ¬ i.NamesPort inst.name e.port →
      e.isDefault = true ∧
      ∃ (b : DesignBinding) (e' : DesignExpression) (x : Expansion) (a : Pattern.Atom) (net : Net),
        (i.defaultsOf inst.ref.id).find? (·.port == e.port) = some b ∧
        (i.expand b.net true).value = some (e', x) ∧ x.atoms = [a] ∧
        m.nets[e.net]? = some net ∧ net.name = a.literal

/-! ## Lists -/

section

variable {α β : Type}

/-- A search in which all hits are the same finds it. -/
theorem findSome?_eq_of_forall {f : α → Option β} {g : Option β} {l : List α}
    (h : ∃ a ∈ l, f a = g) (hall : ∀ a ∈ l, f a = g ∨ f a = none) : l.findSome? f = g := by
  cases hl : l.findSome? f with
  | none =>
      obtain ⟨a, ha, hg⟩ := h
      rw [← hg, List.findSome?_eq_none_iff.mp hl a ha]
  | some c =>
      obtain ⟨a, ha, hc⟩ := List.exists_of_findSome?_eq_some hl
      rcases hall a ha with hg | hnone
      · rw [← hg, hc]
      · rw [hnone] at hc
        cases hc

end

namespace Atomizing

/-! ## Declared connections and events -/

section

variable {i : AtomizeInput} {iss ess : List (List Event)} {es : List Event}
  (hdecl : DeclaredEvents i iss ess es)

include hdecl

theorem mem_of_declared {e : Event} {fs : List Event} (hfs : fs ∈ ess) (he : e ∈ fs) :
    e ∈ es := by
  obtain ⟨name, rfl⟩ := hdecl.eq_append
  exact List.mem_cons_of_mem _ (List.mem_append_right _ (List.mem_flatten.mpr ⟨fs, hfs, he⟩))

/-- An endpoint atom has a net atom, and is connected to its net. -/
theorem exists_connect {x y : Expansion} {atoms : List EndpointAtom} {span : Span}
    (h : i.Declares x y atoms span) {n : Nat} {a : EndpointAtom} (ha : atoms[n]? = some a) :
    ∃ (b : Axis.Binding) (k : Nat) (atom : Pattern.Atom) (net : Net),
      (Axis.bindOrPair x y span).value = some b ∧ b.netIndex[n]? = some k ∧
      x.atoms[k]? = some atom ∧ net.name = atom.literal ∧ .net net ∈ es ∧
      ∃ isSuppressed, .connect a.inst a.port net isSuppressed ∈ es := by
  obtain ⟨d, hd, e, hx, ep, hep, e', he', rfl, hy⟩ := h
  obtain ⟨fs, hfs, e₁, x₁, nets, ess₁, hx₁, hnets, hess₁, rfl⟩ :=
    forall₂_exists_of_mem hdecl.nets hd
  obtain ⟨rfl, rfl⟩ : e = e₁ ∧ x = x₁ := by simpa using hx.symm.trans hx₁
  obtain ⟨gs, hgs, e₂, y₂, atoms₂, b, he₂, hy₂, hb, rfl⟩ :=
    forall₂_exists_of_mem hess₁ hep
  obtain rfl : e' = e₂ := by simpa using he'.symm.trans he₂
  obtain ⟨rfl, rfl⟩ : y = y₂ ∧ atoms = atoms₂ := by simpa using hy.symm.trans hy₂
  obtain ⟨hexp, hlen⟩ := Pattern.expandEndpoint_eq_some hy
  obtain ⟨hindex, hlt⟩ := Axis.bindOrPair_complete (AtomizeInput.expand_eq_some hx).2 hexp hb
  have hn : n < b.netIndex.length := by
    rw [hindex, ← hlen]
    exact (List.getElem?_eq_some_iff.mp ha).1
  have hk := hlt _ (List.getElem_mem hn)
  have hknets : b.netIndex[n] < nets.length := hnets.length_eq ▸ hk
  refine ⟨b, b.netIndex[n], x.atoms[b.netIndex[n]], nets[b.netIndex[n]], hb,
    List.getElem?_eq_getElem hn, List.getElem?_eq_getElem hk,
    congrArg Net.name (hnets.get hk hknets), ?_, ?_⟩
  · refine mem_of_declared hdecl hfs (List.mem_append_left _ ?_)
    exact List.mem_map_of_mem (List.getElem_mem hknets)
  · refine ⟨ep.isSuppressed, mem_of_declared hdecl hfs
      (List.mem_append_right _ (List.mem_append_right _ ?_))⟩
    refine List.mem_flatten.mpr ⟨_, hgs, List.mem_flatMap.mpr ⟨(a, b.netIndex[n]), ?_, ?_⟩⟩
    · refine List.mem_of_getElem? (i := n) ?_
      rw [List.getElem?_zip_eq_some]
      exact ⟨ha, List.getElem?_eq_getElem hn⟩
    · simp [List.getElem?_eq_getElem hknets]

/-- What is connected was named by an endpoint atom, and no default binding is applied yet. -/
theorem declared_cases {f : Event} (h : f ∈ es) :
    ¬ f.IsDefault ∧ ∀ name port net isSuppressed, f = .connect name port net isSuppressed →
      i.NamesPort name port := by
  obtain ⟨n, rfl⟩ := hdecl.eq_append
  simp only [List.mem_cons, List.mem_append, List.mem_flatten] at h
  rcases h with rfl | ⟨fs, hfs, h⟩ | ⟨fs, hfs, h⟩
  · exact ⟨id, fun _ _ _ _ heq => by cases heq⟩
  · obtain ⟨_, _, _, _, insts, _, _, _, rfl⟩ := forall₂_exists_of_mem_right hdecl.instances hfs
    obtain ⟨inst, _, rfl⟩ := List.mem_map.mp h
    exact ⟨id, fun _ _ _ _ heq => by cases heq⟩
  obtain ⟨d, hd, e, x, nets, ess₁, hx, _, hess₁, rfl⟩ :=
    forall₂_exists_of_mem_right hdecl.nets hfs
  simp only [List.mem_append, List.mem_map, List.mem_flatten] at h
  rcases h with ⟨net, _, rfl⟩ | h | ⟨gs, hgs, h⟩
  · exact ⟨id, fun _ _ _ _ heq => by cases heq⟩
  · split at h
    · rw [List.mem_singleton.mp h]
      exact ⟨id, fun _ _ _ _ heq => by cases heq⟩
    · cases h
  obtain ⟨ep, hep, e', y, atoms, b, he', hy, _, rfl⟩ := forall₂_exists_of_mem_right hess₁ hgs
  obtain ⟨q, hq, h⟩ := List.mem_flatMap.mp h
  obtain ⟨net, _, rfl⟩ := Option.map_eq_some_iff.mp (Option.mem_toList.mp h)
  refine ⟨id, fun name port net _ heq => ?_⟩
  cases heq
  exact ⟨x, y, atoms, e'.span, ⟨d, hd, e, hx, ep, hep, e', he', rfl, hy⟩, q.1,
    (List.of_mem_zip hq).1, rfl, rfl⟩

theorem declared_complete : ∀ d ∈ i.decl.nets, ∃ e x,
    (i.expand d.expression d.isPort).value = some (e, x) ∧
    ∀ ep ∈ d.endpoints, ∃ e' y atoms b, i.expressions[ep.expression]? = some e' ∧
      (Pattern.expandEndpoint (i.options e' false) e'.raw).value = some (y, atoms) ∧
      (Axis.bindOrPair x y e'.span).value = some b := by
  intro d hd
  obtain ⟨_, _, e, x, nets, ess₁, hx, _, hess₁, _⟩ := forall₂_exists_of_mem hdecl.nets hd
  refine ⟨e, x, hx, fun ep hep => ?_⟩
  obtain ⟨_, _, e', y, atoms, b, he', hy, hb, _⟩ := forall₂_exists_of_mem hess₁ hep
  exact ⟨e', y, atoms, b, he', hy, hb⟩

end

/-! ## Default bindings -/

/-- Default bindings leave instances and nets alone. -/
theorem Trace.default_same : ∀ {qs : List (Instance × ResolvedDefault)} {s s' : Atomizing},
    Trace s (qs.map fun q => .applyDefault q.1 q.2) s' →
      s'.modul.instances = s.modul.instances ∧ s'.modul.nets = s.modul.nets
  | [], s, s', h => by
      cases h
      exact ⟨rfl, rfl⟩
  | q :: qs, s, s', h => by
      cases h with
      | cons hstep hrest =>
          obtain ⟨hi, hn⟩ := Trace.default_same hrest
          cases hstep with
          | applyDefault => exact ⟨hi, hn⟩
          | overridden => exact ⟨hi, hn⟩

/-- The default bindings of a definition with their nets, in the order of their declaration. -/
theorem forall₂_defaultsOf {i : AtomizeInput} {s : Atomizing} (definition : Ident)
    {resolved : List (List ResolvedDefault)} (h : List.Forall₂ (fun (d : DesignDefault) rs =>
      List.Forall₂ (Resolves i s d.ref.id) d.bindings rs) i.decl.defaults resolved) :
    List.Forall₂ (Resolves i s definition) (i.defaultsOf definition)
      (resolved.flatten.filter fun r => r.definition == definition) := by
  rw [AtomizeInput.defaultsOf]
  generalize i.decl.defaults = declared at h ⊢
  induction h with
  | nil => exact .nil
  | @cons d rs _ _ hd _ ih =>
      rw [List.flatten_cons, List.filter_append, List.filter_cons]
      have hdef : ∀ r ∈ rs, r.definition = d.ref.id := by
        intro r hr
        obtain ⟨b, _, hb⟩ := forall₂_exists_of_mem_right hd hr
        exact hb.definition_eq
      by_cases heq : d.ref.id = definition
      · subst heq
        have hall : rs.filter (fun r => r.definition == d.ref.id) = rs :=
          List.filter_eq_self.mpr fun r hr => by simpa using hdef r hr
        rw [if_pos (by simp), List.flatMap_cons, hall]
        exact List.rel_append hd ih
      · have hnone : rs.filter (fun r => r.definition == definition) = [] :=
          List.filter_eq_nil_iff.mpr fun r hr => by simpa [hdef r hr] using heq
        rw [if_neg (by simpa using heq), hnone]
        exact ih

/-- The first default binding that meets a port of an instance is the first one for its
definition and the port. -/
theorem find?_defaultPairs {made : List Instance} {defaults : List ResolvedDefault}
    {inst : Instance} (hmem : inst ∈ made) (hone : ∀ j ∈ made, j.id = inst.id → j = inst)
    (port : String) :
    (defaultPairs made defaults).find? (fun q => (q.1.id, q.2.port) == (inst.id, port)) =
      ((defaults.filter fun d => d.definition == inst.ref.id).find? (·.port == port)).map
        fun d => (inst, d) := by
  have hrow : ∀ j : Instance, j.id = inst.id → ∀ ds : List ResolvedDefault,
      (ds.map fun d => (j, d)).find? (fun q => (q.1.id, q.2.port) == (inst.id, port)) =
        (ds.find? (·.port == port)).map fun d => (j, d) := by
    intro j hj ds
    rw [List.find?_map]
    congr 2
    funext d
    simp [hj]
  rw [defaultPairs, List.find?_flatMap]
  refine findSome?_eq_of_forall ⟨inst, List.mem_reverse.mpr hmem, hrow inst rfl _⟩ fun j hj => ?_
  by_cases hid : j.id = inst.id
  · obtain rfl := hone j (List.mem_reverse.mp hj) hid
    exact Or.inl (hrow j rfl _)
  · right
    rw [List.find?_map, Option.map_eq_none_iff, List.find?_eq_none]
    intro d _
    simp [hid]

/-! ## A whole run -/

/-- A clean run, split at the default bindings. -/
structure Run (i : AtomizeInput) (s s₁ s' : Atomizing) (es : List Event)
    (resolved : List (List ResolvedDefault)) : Prop where
  /-- The run starts with a module without content and empty tables. -/
  start : s.Consistent ∧ s.bound = ∅
  /-- What was declared happens first. -/
  declared : ∃ iss ess, DeclaredEvents i iss ess es
  first : Trace s es s₁
  /-- The default bindings have nets. -/
  resolves : List.Forall₂ (fun (d : DesignDefault) rs =>
    List.Forall₂ (Resolves i s₁ d.ref.id) d.bindings rs) i.decl.defaults resolved
  /-- The default bindings are applied. -/
  last : Trace s₁ ((defaultPairs s₁.made resolved.flatten).map fun q => .applyDefault q.1 q.2) s'
  /-- Identifiers do not wrap around. -/
  small : s'.modul.Small
  /-- Instances differ in their names. -/
  names : ∀ (k₁ k₂ : Ident) (i₁ i₂ : Instance), s'.modul.instances[k₁]? = some i₁ →
    s'.modul.instances[k₂]? = some i₂ → i₁.name = i₂.name → k₁ = k₂

namespace Run

variable {i : AtomizeInput} {s s₁ s' : Atomizing} {es : List Event}
  {resolved : List (List ResolvedDefault)} (h : Run i s s₁ s' es resolved)

include h

theorem small₁ : s₁.modul.Small := h.last.small h.small

theorem consistent₁ : s₁.Consistent := (h.first.keeps h.start.1 h.small₁).1

theorem consistent : s'.Consistent := (h.last.keeps h.consistent₁ h.small).1

theorem same : s'.modul.instances = s₁.modul.instances ∧ s'.modul.nets = s₁.modul.nets :=
  h.last.default_same

variable {inst : Instance} {k : Ident}

/-- The name of an instance leads to it. -/
theorem named_eq {inst other : Instance} (hk : s₁.modul.instances[k]? = some inst)
    (hname : s₁.instances[inst.name]? = some other) : other = inst := by
  obtain ⟨hn, hget⟩ := h.consistent₁.instance_named _ _ hname
  have hid : other.id = k := by
    refine h.names _ _ other inst ?_ ?_ hn
    · rw [h.same.1, hget]
    · rw [h.same.1, hk]
  rw [hid, hk] at hget
  exact (Option.some.inj hget).symm

/-- Before the default bindings exactly the ports that endpoint atoms name are bound. -/
theorem bound_iff_namesPort (hk : s₁.modul.instances[k]? = some inst) (port : String) :
    (∃ b, s₁.bound[(k, port)]? = some b) ↔ i.NamesPort inst.name port := by
  obtain ⟨_, ess, hdecl⟩ := h.declared
  constructor
  · rintro ⟨b, hb⟩
    rcases h.first.bound_origin h.start.1 h.small₁ (fun e he => (declared_cases hdecl he).1) hb with
      hb | ⟨_, name, other, net, hmem, hother, hid⟩
    · rw [h.start.2] at hb
      simp at hb
    · obtain ⟨hn, hget⟩ := h.consistent₁.instance_named _ _ hother
      rw [hid, hk] at hget
      rw [Option.some.inj hget, hn]
      exact (declared_cases hdecl hmem).2 _ _ _ _ rfl
  · rintro ⟨x, y, atoms, span, hd, a, ha, hainst, haport⟩
    obtain ⟨n, hn⟩ := List.getElem?_of_mem ha
    obtain ⟨_, _, _, net, _, _, _, _, _, _, hmem⟩ := exists_connect hdecl hd hn
    obtain ⟨other, b, hother, hb, _⟩ := h.first.connected h.start.1 h.small₁ hmem
    rw [hainst] at hother
    obtain rfl := h.named_eq hk hother
    rw [haport, (h.consistent₁.instance_made k other hk).1] at hb
    exact ⟨b, hb⟩

/-- What is bound before the default bindings is not a default. -/
theorem not_default {key : Ident × String} {b : Bound} (hb : s₁.bound[key]? = some b) :
    b.endpoint.isDefault = false := by
  obtain ⟨_, ess, hdecl⟩ := h.declared
  rcases h.first.bound_origin h.start.1 h.small₁ (fun e he => (declared_cases hdecl he).1) hb with
    hb | ⟨hd, _⟩
  · rw [h.start.2] at hb
    simp at hb
  · exact hd

/-- A free port is bound by the first default binding for it. -/
theorem bound_of_free (hk : s₁.modul.instances[k]? = some inst)
    {port : String} (hfree : s₁.bound[(k, port)]? = none) :
    ((i.defaultsOf inst.ref.id).find? (·.port == port) = none ∧ s'.bound[(k, port)]? = none) ∨
      ∃ b r bound, (i.defaultsOf inst.ref.id).find? (·.port == port) = some b ∧
        Resolves i s₁ inst.ref.id b r ∧ s'.bound[(k, port)]? = some bound ∧
        bound.endpoint.net = r.net.id ∧ bound.endpoint.isDefault = true := by
  obtain ⟨hid, hmade⟩ := h.consistent₁.instance_made k inst hk
  have hone : ∀ j ∈ s₁.made, j.id = inst.id → j = inst := by
    intro j hj hjd
    have hget := (h.consistent₁.made_instance j hj).1
    rw [hjd, hid, hk] at hget
    exact (Option.some.inj hget).symm
  have hbound := h.last.default_bound hfree
  rw [← hid, find?_defaultPairs hmade hone port] at hbound
  rw [hid] at hbound
  have hpq : ∀ (b : DesignBinding) (r : ResolvedDefault), Resolves i s₁ inst.ref.id b r →
      (b.port == port) = (r.port == port) := fun b r hr => by rw [hr.port_eq]
  rcases forall₂_find? (forall₂_defaultsOf inst.ref.id h.resolves) hpq with
    ⟨hb, hr⟩ | ⟨b, r, hb, hr, hres⟩
  · rw [hr] at hbound
    exact Or.inl ⟨hb, by simpa using hbound⟩
  · rw [hr, Option.map_some, Option.map_some] at hbound
    obtain ⟨bound, hget, heq⟩ := Option.map_eq_some_iff.mp hbound
    obtain ⟨hnet, hdef⟩ := Prod.mk.inj heq
    exact Or.inr ⟨b, r, bound, hb, hres, hget, hnet, hdef⟩

/-- A port has an endpoint exactly when it is bound. -/
theorem exists_endpoint_iff (k : Ident) (port : String) :
    (∃ (id : Ident) (e : Endpoint), s'.modul.endpoints[id]? = some e ∧ e.inst = k ∧
      e.port = port) ↔ ∃ b, s'.bound[(k, port)]? = some b := by
  constructor
  · rintro ⟨id, e, he, rfl, rfl⟩
    obtain ⟨_, b, hb, _⟩ := h.consistent.endpoint_bound id e he
    exact ⟨b, hb⟩
  · rintro ⟨b, hb⟩
    obtain ⟨hinst, hport, hget⟩ := h.consistent.bound_endpoint k port b hb
    exact ⟨_, _, hget, hinst, hport⟩

theorem exists_endpoint_iff_declared (hk : s'.modul.instances[k]? = some inst) (port : String) :
    (∃ (id : Ident) (e : Endpoint), s'.modul.endpoints[id]? = some e ∧ e.inst = k ∧
      e.port = port) ↔ i.NamesPort inst.name port ∨
        ∃ b ∈ i.defaultsOf inst.ref.id, b.port = port := by
  rw [h.same.1] at hk
  rw [h.exists_endpoint_iff, ← h.bound_iff_namesPort hk]
  cases hfree : s₁.bound[(k, port)]? with
  | some b => exact iff_of_true ⟨b, h.last.bound_kept hfree⟩ (Or.inl ⟨b, rfl⟩)
  | none =>
      rcases h.bound_of_free hk hfree with ⟨hnone, hb⟩ | ⟨b, r, bound, hb, _, hbound, _⟩
      · rw [hb]
        refine iff_of_false (by simp) ?_
        rintro (⟨b, hb⟩ | ⟨b, hb, hport⟩)
        · cases hb
        · exact List.find?_eq_none.mp hnone b hb (by simpa using hport)
      · refine iff_of_true ⟨bound, hbound⟩ (Or.inr ⟨b, List.mem_of_find?_eq_some hb, ?_⟩)
        simpa using List.find?_some hb

/-- An endpoint atom names an instance. -/
theorem exists_instance {x y : Expansion} {atoms : List EndpointAtom} {span : Span}
    (hd : i.Declares x y atoms span) {a : EndpointAtom} (ha : a ∈ atoms) :
    ∃ (k : Ident) (inst : Instance), s'.modul.instances[k]? = some inst ∧ inst.name = a.inst := by
  obtain ⟨_, ess, hdecl⟩ := h.declared
  obtain ⟨n, hn⟩ := List.getElem?_of_mem ha
  obtain ⟨_, _, _, net, _, _, _, _, _, _, hconnect⟩ := exists_connect hdecl hd hn
  obtain ⟨inst, _, hinst, _⟩ := h.first.connected h.start.1 h.small₁ hconnect
  obtain ⟨hname, hget⟩ := h.consistent₁.instance_named _ _ hinst
  exact ⟨inst.id, inst, by rw [h.same.1, hget], hname⟩

/-- The endpoint of a port that an endpoint atom names. -/
theorem endpoint_of_named {id : Ident} {e : Endpoint}
    (he : s'.modul.endpoints[id]? = some e) (hinst : s'.modul.instances[e.inst]? = some inst)
    {x y : Expansion} {atoms : List EndpointAtom} {span : Span} (hd : i.Declares x y atoms span)
    {n : Nat} {a : EndpointAtom} (ha : atoms[n]? = some a) (hname : a.inst = inst.name)
    (hport : a.port = e.port) : e.isDefault = false ∧
      ∃ (b : Axis.Binding) (k : Nat) (atom : Pattern.Atom) (net : Net),
        (Axis.bindOrPair x y span).value = some b ∧ b.netIndex[n]? = some k ∧
        x.atoms[k]? = some atom ∧ s'.modul.nets[e.net]? = some net ∧ net.name = atom.literal := by
  obtain ⟨_, ess, hdecl⟩ := h.declared
  obtain ⟨b, k, atom, net, hb, hk, hatom, hnet, hmade, _, hconnect⟩ :=
    exists_connect hdecl hd ha
  obtain ⟨other, bound, hother, hbound, hid⟩ :=
    h.first.connected h.start.1 h.small₁ hconnect
  rw [h.same.1] at hinst
  rw [hname] at hother
  obtain rfl := h.named_eq hinst hother
  rw [hport, (h.consistent₁.instance_made _ _ hinst).1] at hbound
  -- the binding is the one that the endpoint has in the end
  obtain ⟨_, bound', hbound', rfl⟩ := h.consistent.endpoint_bound id e he
  obtain rfl : bound = bound' := Option.some.inj ((h.last.bound_kept hbound).symm.trans hbound')
  refine ⟨h.not_default hbound, b, k, atom, net, hb, hk, hatom, ?_, hnet⟩
  rw [hid, h.same.2]
  exact h.first.net_mem h.start.1 h.small₁ hmade

/-- The endpoint of a port that no endpoint atom names. -/
theorem endpoint_of_not_named {id : Ident} {e : Endpoint}
    (he : s'.modul.endpoints[id]? = some e) (hinst : s'.modul.instances[e.inst]? = some inst)
    (hnot : ¬ i.NamesPort inst.name e.port) : e.isDefault = true ∧
      ∃ (b : DesignBinding) (e' : DesignExpression) (x : Expansion) (a : Pattern.Atom) (net : Net),
        (i.defaultsOf inst.ref.id).find? (·.port == e.port) = some b ∧
        (i.expand b.net true).value = some (e', x) ∧ x.atoms = [a] ∧
        s'.modul.nets[e.net]? = some net ∧ net.name = a.literal := by
  rw [h.same.1] at hinst
  have hfree : s₁.bound[(e.inst, e.port)]? = none := by
    refine Option.eq_none_iff_forall_ne_some.mpr fun b hb => hnot ?_
    exact (h.bound_iff_namesPort hinst e.port).mp ⟨b, hb⟩
  obtain ⟨_, bound, hbound, rfl⟩ := h.consistent.endpoint_bound id e he
  rcases h.bound_of_free hinst hfree with ⟨_, hnone⟩ | ⟨b, r, bound', hb, hres, hbound', hnet, hdef⟩
  · rw [hnone] at hbound
    cases hbound
  · obtain rfl : bound = bound' := Option.some.inj (hbound.symm.trans hbound')
    obtain ⟨e', x, a, hx, hatoms, hn⟩ := hres.net_named
    obtain ⟨hname, hget⟩ := h.consistent₁.net_named _ _ hn
    refine ⟨hdef, b, e', x, a, r.net, hb, hx, hatoms, ?_, hname⟩
    rw [hnet, h.same.2, hget]

/-- In a sound module, the endpoints are the connections that are declared. -/
theorem connected {p : Program} (hsound : s'.modul.Sound p) : s'.modul.Connected i := by
  obtain ⟨_, ess, hdecl⟩ := h.declared
  refine ⟨declared_complete hdecl, fun _ _ _ _ hd _ ha => h.exists_instance hd ha,
    hsound.instance_name, hsound.net_name, fun id e he => ?_,
    fun id₁ id₂ e₁ e₂ h₁ h₂ hinst hport => ?_,
    fun k inst port hk => h.exists_endpoint_iff_declared hk port,
    fun id e inst he hinst x y atoms span hd n a ha hname hport =>
      h.endpoint_of_named he hinst hd ha hname hport,
    fun id e inst he hinst hnot => h.endpoint_of_not_named he hinst hnot⟩
  · obtain ⟨hnet, inst, hinst, _⟩ := hsound.endpoint id e he
    exact ⟨Std.ExtTreeMap.mem_iff_isSome_getElem?.mpr (Option.isSome_of_eq_some hinst), hnet⟩
  · obtain ⟨hid₁, b₁, hb₁, rfl⟩ := h.consistent.endpoint_bound id₁ e₁ h₁
    obtain ⟨hid₂, b₂, hb₂, rfl⟩ := h.consistent.endpoint_bound id₂ e₂ h₂
    rw [hinst, hport, hb₂] at hb₁
    rw [← hid₁, ← hid₂, Option.some.inj hb₁]

end Run

end Atomizing

end Netlist
