import Netlist.Proofs.Atomize.Design
import Netlist.Proofs.Program.Stored

/-!
# Atomized programs can be stored

The number of a segment is below the limit on atoms, because every segment before it has an
atom, and the values of groups were read as numbers of 64 bits.  So what an atom comes from
can be stored.  Each step of atomizing puts a thing under its own identifier and hence keeps
a module that can be stored so (`Keeps`).  A design is atomized to a program that can be
stored (`Design.storable_of_atomize`).
-/

namespace Netlist

/-! ## Atoms -/

namespace Pattern

/-- The numbers of an atom have 64 bits. -/
structure Atom.Storable (a : Atom) : Prop where
  segment : a.segment < 2 ^ 63
  parts : ∀ p ∈ a.parts, p.Storable

/-- A segment with proper groups has an atom, and not more than there may be. -/
theorem length_of_expandSegment {budget number : Nat} {s : Segment} {atoms : List Atom}
    (hs : ∀ g ∈ s.groups, g.Proper) (h : expandSegment budget number s = some atoms) :
    0 < atoms.length ∧ atoms.length ≤ budget := by
  constructor
  · have hne : tuples (s.groups.map (·.items)) ≠ [] := by
      refine tuples_ne_nil fun values hvalues => ?_
      obtain ⟨g, hg, rfl⟩ := List.mem_map.mp hvalues
      exact (hs g hg).items_ne_nil
    rw [expandSegment_eq h, List.length_map]
    exact List.length_pos_iff.mpr hne
  · obtain ⟨drafts, hdrafts, rfl⟩ := Option.map_eq_some_iff.mp h
    rw [List.length_map]
    exact length_le_of_expandPieces hdrafts

/-- The atoms of a segment carry its number and parts that can be stored. -/
theorem storable_of_expandSegment {budget number : Nat} {s : Segment} {atoms : List Atom}
    (hs : ∀ g ∈ s.groups, g.Proper) (h : expandSegment budget number s = some atoms) {a : Atom}
    (ha : a ∈ atoms) : a.segment = number ∧ ∀ p ∈ a.parts, p.Storable := by
  rw [expandSegment_eq h] at ha
  obtain ⟨ps, hps, rfl⟩ := List.mem_map.mp ha
  refine ⟨rfl, fun p hp => ?_⟩
  obtain ⟨values, hvalues, hmem⟩ := forall₂_exists_of_mem (mem_tuples.mp hps) hp
  obtain ⟨g, hg, rfl⟩ := List.mem_map.mp hvalues
  exact (hs g hg).storable p hmem

/-- The number of a segment is below the number of atoms that there may be. -/
theorem storable_of_expandSegments : ∀ {segments : List Segment} {budget number : Nat}
    {atoms : List Atom}, (∀ s ∈ segments, ∀ g ∈ s.groups, g.Proper) →
    expandSegments budget number segments = some atoms →
    ∀ a ∈ atoms, a.segment < number + budget ∧ ∀ p ∈ a.parts, p.Storable
  | [], _, _, _, _, h, a, ha => by
      cases h
      cases ha
  | s :: rest, budget, number, atoms, hs, h, a, ha => by
      rw [expandSegments] at h
      obtain ⟨own, hown, h⟩ := Option.bind_eq_some_iff.mp h
      obtain ⟨more, hmore, h⟩ := Option.bind_eq_some_iff.mp h
      cases h
      have hlength := length_of_expandSegment (hs s (List.mem_cons_self ..)) hown
      rcases List.mem_append.mp ha with ha | ha
      · obtain ⟨hsegment, hparts⟩ :=
          storable_of_expandSegment (hs s (List.mem_cons_self ..)) hown ha
        exact ⟨by omega, hparts⟩
      · obtain ⟨hsegment, hparts⟩ := storable_of_expandSegments
          (fun s' hs' => hs s' (List.mem_cons_of_mem _ hs')) hmore a ha
        exact ⟨by omega, hparts⟩

/-- A limit of 63 bits leaves atoms that can be stored. -/
theorem storable_of_expand {o : Options} {raw : String} {x : Expansion} (ho : o.maxAtoms < 2 ^ 63)
    (h : (expand o raw).value = some x) {a : Atom} (ha : a ∈ x.atoms) : a.Storable := by
  obtain ⟨e, atoms, hread, hatoms, _, rfl⟩ := expand_eq_some_iff.mp h
  obtain ⟨hsegment, hparts⟩ := storable_of_expandSegments
    (fun s hs g hg => (meant_of_read hread s hs g hg).toProper) hatoms a ha
  refine ⟨?_, hparts⟩
  have hlimit : o.limit < 2 ^ 63 := by
    rw [Options.limit]
    split
    · decide
    · omega
  omega

end Pattern

theorem storable_of_mem_originOf {e : DesignExpression} {x : Pattern.Expansion} {a : Pattern.Atom}
    (ha : a.Storable) {o : Origin} (ho : o ∈ originOf e x a) : o.Storable := by
  rw [originOf] at ho
  split at ho
  · cases ho
  · cases ho
    have hsegment := ha.segment
    refine ⟨by simp only; omega, fun ps hps => ?_⟩
    simp only [Option.mem_def] at hps
    split at hps
    · cases hps
    · cases hps
      exact ha.parts

/-! ## Modules -/

theorem IdMap.Keyed.empty {α : Type} (id : α → Ident) : IdMap.Keyed id (∅ : IdMap α) := by
  intro k a h
  simp at h

theorem IdMap.Keyed.insert {α : Type} {id : α → Ident} {m : IdMap α} (h : m.Keyed id) (a : α) :
    IdMap.Keyed id (m.insert (id a) a) := by
  intro k b hb
  rcases IdMap.of_getElem?_insert hb with ⟨rfl, rfl⟩ | hb
  · rfl
  · exact h k b hb

/-- One net more. -/
theorem Module.Storable.addNet {m : Module} (h : m.Storable) (n : Net)
    (hn : ∀ o ∈ n.origin, o.Storable) :
    Module.Storable { m with nets := m.nets.insert n.id n } where
  nets_keyed := h.nets_keyed.insert n
  instances_keyed := h.instances_keyed
  endpoints_keyed := h.endpoints_keyed
  instance_origin := h.instance_origin
  net_origin n' hn' := by
    obtain ⟨k, hk⟩ := IdMap.mem_items.mp hn'
    rcases IdMap.of_getElem?_insert hk with ⟨_, rfl⟩ | hk
    · exact hn
    · exact h.net_origin n' (IdMap.mem_items.mpr ⟨k, hk⟩)

/-- One instance more. -/
theorem Module.Storable.addInstance {m : Module} (h : m.Storable) (i : Instance)
    (hi : ∀ o ∈ i.origin, o.Storable) :
    Module.Storable { m with instances := m.instances.insert i.id i } where
  nets_keyed := h.nets_keyed
  instances_keyed := h.instances_keyed.insert i
  endpoints_keyed := h.endpoints_keyed
  net_origin := h.net_origin
  instance_origin i' hi' := by
    obtain ⟨k, hk⟩ := IdMap.mem_items.mp hi'
    rcases IdMap.of_getElem?_insert hk with ⟨_, rfl⟩ | hk
    · exact hi
    · exact h.instance_origin i' (IdMap.mem_items.mpr ⟨k, hk⟩)

theorem Module.Storable.addEndpoint {m : Module} (h : m.Storable) (e : Endpoint) :
    Module.Storable { m with endpoints := m.endpoints.insert e.id e } :=
  { h with endpoints_keyed := h.endpoints_keyed.insert e }

namespace Atomizing

/-! ## Steps -/

/-- A step that keeps a module that can be stored one that can be stored. -/
def Keeps {α : Type} (x : Atomize α) : Prop :=
  ∀ s : Atomizing, s.modul.Storable → (x.run s).value.2.modul.Storable

section

variable {α β : Type}

theorem keeps_pure (a : α) : Keeps (pure a : Atomize α) := fun _ h => h

/-- What two steps keep, they keep one after the other. -/
theorem keeps_bind {x : Atomize α} {f : α → Atomize β} (hx : Keeps x) (hf : ∀ a, Keeps (f a)) :
    Keeps (x >>= f) := by
  intro s hs
  rw [StateT.run_bind, Logged.value_bind]
  exact hf _ _ (hx s hs)

/-- What follows a step that only reports goes on with its result. -/
theorem keeps_logged_bind {x : Logged α} {f : α → Atomize β} (hf : Keeps (f x.value)) :
    Keeps (Atomize.logged x >>= f) := fun s hs => hf s hs

theorem keeps_get_bind {f : Atomizing → Atomize β} (hf : ∀ s, Keeps (f s)) :
    Keeps (get >>= f) := fun s hs => hf s s hs

theorem keeps_modify {f : Atomizing → Atomizing}
    (hf : ∀ s : Atomizing, s.modul.Storable → (f s).modul.Storable) :
    Keeps (modify f : Atomize PUnit) := hf

theorem keeps_report (span : Span) (p : AtomizeProblem) : Keeps (Atomize.report span p) :=
  fun _ hs => hs

theorem keeps_newId (kind : IdKind) : Keeps (Atomize.newId kind) := fun _ hs => hs

theorem keeps_forIn {body : β → PUnit → Atomize (ForInStep PUnit)} : ∀ {l : List β},
    (∀ b ∈ l, Keeps (body b ⟨⟩)) → Keeps (forIn l PUnit.unit body)
  | [], _ => by
      rw [List.forIn_nil]
      exact keeps_pure _
  | b :: l, h => by
      rw [List.forIn_cons]
      refine keeps_bind (h b (List.mem_cons_self ..)) fun r => ?_
      cases r with
      | done u => exact keeps_pure u
      | yield u => exact keeps_forIn fun c hc => h c (List.mem_cons_of_mem _ hc)

theorem keeps_mapM {f : β → Atomize α} : ∀ {l : List β}, (∀ b ∈ l, Keeps (f b)) → Keeps (l.mapM f)
  | [], _ => by
      rw [List.mapM_nil]
      exact keeps_pure _
  | b :: l, h => by
      rw [List.mapM_cons]
      refine keeps_bind (h b (List.mem_cons_self ..)) fun a => ?_
      refine keeps_bind (keeps_mapM fun c hc => h c (List.mem_cons_of_mem _ hc)) fun as => ?_
      exact keeps_pure _

end

theorem keeps_atomizeName (i : AtomizeInput) : Keeps (atomizeName i) := by
  refine keeps_logged_bind ?_
  split
  · exact keeps_pure _
  · split
    · exact keeps_modify fun s hs => { hs with }
    · exact keeps_report _ _

/-- An instance keeps where its atom comes from, which can be stored. -/
theorem keeps_addInstance {ref : Ref} {e : DesignExpression} {x : Pattern.Expansion}
    {a : Pattern.Atom} (ha : a.Storable) (params : List Param) :
    Keeps (addInstance ref e x a params) := by
  refine keeps_bind (keeps_newId _) fun id => keeps_modify fun s hs => ?_
  exact hs.addInstance
    { id := id, name := a.literal, ref := ref,
      params := if params.isEmpty then none else some params, origin := originOf e x a,
      span := e.span }
    fun o ho => storable_of_mem_originOf ha ho

theorem keeps_addNet {isPort : Bool} {e : DesignExpression} {x : Pattern.Expansion}
    {a : Pattern.Atom} (ha : a.Storable) : Keeps (addNet isPort e x a) := by
  refine keeps_bind (keeps_newId _) fun id => ?_
  refine keeps_bind (keeps_modify fun s hs => ?_) fun _ => keeps_pure _
  exact hs.addNet
    { id := id, name := a.literal, isPort := isPort, origin := originOf e x a, span := e.span }
    fun o ho => storable_of_mem_originOf ha ho

theorem keeps_bindPort (net inst : Ident) (port : String) (span : Span)
    (isDefault isSuppressed : Bool) :
    Keeps (bindPort net inst port span isDefault isSuppressed) := by
  refine keeps_bind (keeps_newId _) fun id => keeps_modify fun s hs => ?_
  exact hs.addEndpoint ⟨id, net, inst, port, isDefault, span⟩

theorem keeps_connect (e : DesignExpression) (isSuppressed : Bool) (a : Pattern.EndpointAtom)
    (net : Net) : Keeps (connect e isSuppressed a net) := by
  refine keeps_get_bind fun s => ?_
  split
  · exact keeps_report _ _
  · split
    · exact keeps_bindPort _ _ _ _ _ _
    · split
      · exact keeps_report _ _
      · exact keeps_pure _

theorem keeps_atomizeEndpoint (i : AtomizeInput) (x : Pattern.Expansion) (nets : Array Net)
    (d : DesignEndpoint) : Keeps (atomizeEndpoint i x nets d) := by
  refine keeps_logged_bind ?_
  split
  · exact keeps_pure _
  refine keeps_logged_bind ?_
  split
  · exact keeps_pure _
  refine keeps_logged_bind ?_
  split
  · exact keeps_pure _
  refine keeps_bind (keeps_forIn fun q _ => ?_) fun _ => keeps_pure _
  dsimp only
  split
  · exact keeps_bind (keeps_connect _ _ _ _) fun _ => keeps_pure _
  · exact keeps_pure _

theorem keeps_applyDefault (inst : Instance) (d : ResolvedDefault) :
    Keeps (applyDefault inst d) := by
  refine keeps_get_bind fun s => ?_
  split
  · exact keeps_bindPort _ _ _ _ _ _
  · split
    · exact keeps_report _ _
    · exact keeps_pure _

theorem keeps_defaultNet (i : AtomizeInput) (b : DesignBinding) : Keeps (defaultNet i b) := by
  refine keeps_logged_bind ?_
  split
  · exact keeps_pure _
  · split
    · refine keeps_get_bind fun s => ?_
      split
      · exact keeps_pure _
      · exact keeps_bind (keeps_report _ _) fun _ => keeps_pure _
    · exact keeps_bind (keeps_report _ _) fun _ => keeps_pure _

theorem keeps_resolveBindings (i : AtomizeInput) (definition : Ident) :
    ∀ bindings : List DesignBinding, Keeps (resolveBindings i definition bindings)
  | [] => keeps_pure _
  | b :: rest => by
      refine keeps_bind (keeps_defaultNet i b) fun net => ?_
      exact keeps_bind (keeps_resolveBindings i definition rest) fun more => keeps_pure _

theorem keeps_applyDefaults (i : AtomizeInput) : Keeps (applyDefaults i) := by
  refine keeps_bind (keeps_mapM fun d _ => keeps_resolveBindings i d.ref.id d.bindings) fun rs => ?_
  refine keeps_get_bind fun s => keeps_bind (keeps_forIn fun inst _ => ?_) fun _ => keeps_pure _
  refine keeps_bind (keeps_forIn fun d _ => ?_) fun _ => keeps_pure _
  split
  · exact keeps_bind (keeps_applyDefault inst d) fun _ => keeps_pure _
  · exact keeps_pure _

section

variable {i : AtomizeInput} (hi : i.maxAtoms < 2 ^ 63)

include hi

/-- The atoms of every expression of the module can be stored. -/
theorem storable_of_mem_atoms {id : Ident} {noSplice : Bool} {e : DesignExpression}
    {x : Pattern.Expansion} (h : (i.expand id noSplice).value = some (e, x)) {a : Pattern.Atom}
    (ha : a ∈ x.atoms) : a.Storable :=
  Pattern.storable_of_expand (o := i.options e noSplice) hi (AtomizeInput.expand_eq_some h).2 ha

theorem keeps_atomizeInstance (d : DesignInstance) : Keeps (atomizeInstance i d) := by
  refine keeps_logged_bind ?_
  split
  · exact keeps_pure _
  · next e x hexpand =>
    refine keeps_logged_bind (keeps_bind (keeps_forIn fun q hq => ?_) fun _ => keeps_pure _)
    have ha : q.1.Storable := storable_of_mem_atoms hi hexpand (List.of_mem_zip hq).1
    exact keeps_bind (keeps_addInstance ha q.2) fun _ => keeps_pure _

theorem keeps_atomizeNet (d : DesignNet) : Keeps (atomizeNet i d) := by
  refine keeps_logged_bind ?_
  split
  · exact keeps_pure _
  · next e x hexpand =>
    refine keeps_bind (keeps_mapM fun a ha => keeps_addNet (storable_of_mem_atoms hi hexpand ha))
      fun nets => ?_
    have hloop : Keeps (do
        for ep in d.endpoints do
          atomizeEndpoint i x nets.toArray ep) := by
      refine keeps_bind (keeps_forIn fun ep _ => ?_) fun _ => keeps_pure _
      exact keeps_bind (keeps_atomizeEndpoint i x _ ep) fun _ => keeps_pure _
    split
    · exact keeps_bind (keeps_modify fun s hs => { hs with }) fun _ => hloop
    · exact hloop

/-- Every step of atomizing keeps the module storable. -/
theorem keeps_atomizeAll : Keeps (atomizeAll i) := by
  refine keeps_bind (keeps_atomizeName i) fun _ => ?_
  refine keeps_bind (keeps_forIn fun d _ => ?_) fun _ => ?_
  · exact keeps_bind (keeps_atomizeInstance hi d) fun _ => keeps_pure _
  refine keeps_bind (keeps_forIn fun d _ => ?_) fun _ => keeps_applyDefaults i
  exact keeps_bind (keeps_atomizeNet hi d) fun _ => keeps_pure _

theorem storable_of_atomizeModule (alloc : Allocator) :
    (atomizeModule i alloc).value.1.Storable := by
  refine keeps_atomizeAll hi (start i alloc) ?_
  exact ⟨.empty _, .empty _, .empty _, by simp [start, IdMap.items], by simp [start, IdMap.items]⟩

end

end Atomizing

/-! ## Programs -/

theorem storable_of_mem_atomizeModules {design : Design} {maxAtoms : Int}
    (hmax : maxAtoms < 2 ^ 63) : ∀ {decls : List DesignModule} {alloc : Allocator} {m : Module},
    m ∈ (atomizeModules design maxAtoms alloc decls).value.1 → m.Storable
  | [], _, _, h => absurd h List.not_mem_nil
  | decl :: decls, alloc, m, h => by
      rcases List.mem_cons.mp h with rfl | h
      · exact Atomizing.storable_of_atomizeModule hmax alloc
      · exact storable_of_mem_atomizeModules hmax h

theorem IdMap.Keyed.ofItems {α : Type} (id : α → Ident) (items : List α) :
    IdMap.Keyed id (IdMap.ofItems id items) := by
  intro k a h
  exact (IdMap.mem_of_getElem?_ofItems h).2

/-- The program of a design can be stored. -/
theorem Design.storable_of_atomize {design : Design} {alloc : Allocator} {maxAtoms : Int}
    {p : Program} (hmax : maxAtoms < 2 ^ 63) (h : (design.atomize alloc maxAtoms).value = some p) :
    p.Storable := by
  obtain ⟨_, _, rfl⟩ := atomize_eq_some_iff.mp h
  refine ⟨.ofItems _ _, .ofItems _ _, fun m hm => ?_⟩
  obtain ⟨k, hk⟩ := IdMap.mem_items.mp hm
  exact storable_of_mem_atomizeModules hmax (IdMap.mem_of_getElem?_ofItems hk).1

end Netlist
