import Netlist.Proofs.Atomize.Listing

/-!
# What binds a port

The tables of a run hold the first instance and the first net of each name (`Trace.tables`), and
a port keeps what bound it first (`Trace.first_binding`).  So a port that endpoint expressions name
is bound with the marker of the first of them, and any other port goes to the net of the first
default binding for it (`exists_bound`).
-/

namespace Netlist

open Pattern (Expansion)
open Atomizing

/-! ## Endpoint expressions for a port -/

/-- Whether a name is that of the instance with an identifier: the first one of that name. -/
def isNameOf (made : List Instance) (id : Ident) (name : String) : Bool :=
  (made.find? (·.name == name)).any (·.id == id)

namespace AtomizeInput

/-- Whether an endpoint expression names a port of an instance. -/
def names (i : AtomizeInput) (made : List Instance) (inst : Ident) (port : String)
    (ep : DesignEndpoint) : Bool :=
  (i.expressions[ep.expression]?).any fun e =>
    (Pattern.expandEndpoint (i.options e false) e.raw).value.any fun r =>
      r.2.any fun a => isNameOf made inst a.inst && a.port == port

/-- The markers of the endpoint expressions that name a port of an instance, in the order of their
declaration. -/
def marks (i : AtomizeInput) (made : List Instance) (inst : Ident) (port : String) : List Bool :=
  ((i.decl.nets.flatMap (·.endpoints)).filter (i.names made inst port)).map (·.isSuppressed)

end AtomizeInput

/-! ## Tables -/

theorem getElem?_insertIfNew_eq_or {α : Type} (m : Std.HashMap String α) (new name : String)
    (a : α) : (m.insertIfNew new a)[name]? =
      (m[name]?).or (if new == name then some a else none) := by
  rw [Std.HashMap.getElem?_insertIfNew]
  by_cases hname : new = name
  · subst hname
    by_cases hmem : new ∈ m
    · simp [hmem]
    · simp [hmem]
  · simp [hname]

/-- The net of a binding, whether it is a default, and whether it has a marker. -/
def Bound.gist (b : Bound) : Ident × Bool × Bool :=
  (b.endpoint.net, b.endpoint.isDefault, b.isSuppressed)

namespace Atomizing

/-- What the tables of names hold after some events: the first of each name. -/
structure Tables (s : Atomizing) (es : List Event) (s' : Atomizing) : Prop where
  instances : ∀ name : String, s'.instances[name]? =
    (s.instances[name]?).or ((es.filterMap Event.inst?).find? (·.name == name))
  nets : ∀ name : String, s'.nets[name]? =
    (s.nets[name]?).or ((es.filterMap Event.net?).find? (·.name == name))
  made : s'.made.reverse = s.made.reverse ++ es.filterMap Event.inst?

variable {es : List Event} {s s' : Atomizing} {i : AtomizeInput}

theorem Step.tables {e : Event} (h : Step s e s') : Tables s [e] s' := by
  cases h with
  | inst inst hid =>
      refine ⟨fun name => ?_, fun name => ?_, ?_⟩
      · rw [withInstance, getElem?_insertIfNew_eq_or]
        by_cases hname : inst.name = name <;> simp [Event.inst?, hname]
      · simp [Event.net?, withInstance]
      · simp [Event.inst?, withInstance]
  | net net hid =>
      refine ⟨fun name => ?_, fun name => ?_, ?_⟩
      · simp [Event.inst?, withNet]
      · rw [withNet, getElem?_insertIfNew_eq_or]
        by_cases hname : net.name = name <;> simp [Event.net?, hname]
      · simp [Event.inst?, withNet]
  | _ =>
      refine ⟨fun name => ?_, fun name => ?_, ?_⟩ <;> simp [Event.inst?, Event.net?, withEndpoint]

theorem Trace.tables (h : Trace s es s') :
    Tables s es s' := by
  induction h with
  | nil s => exact ⟨by simp, by simp, by simp⟩
  | @cons s s₁ s₂ e es hstep _ ih =>
      have hone := hstep.tables
      have hinst : (e :: es).filterMap Event.inst? =
          [e].filterMap Event.inst? ++ es.filterMap Event.inst? := List.filterMap_append (l := [e])
      have hnet : (e :: es).filterMap Event.net? =
          [e].filterMap Event.net? ++ es.filterMap Event.net? := List.filterMap_append (l := [e])
      refine ⟨fun name => ?_, fun name => ?_, ?_⟩
      · rw [ih.instances, hone.instances, hinst, List.find?_append, Option.or_assoc]
      · rw [ih.nets, hone.nets, hnet, List.find?_append, Option.or_assoc]
      · rw [ih.made, hone.made, hinst, List.append_assoc]

/-! ## What binds a port -/

/-- The binding of a port that an event asks for. -/
def bindingAt (made : List Instance) (key : Ident × String) :
    Event → Option (Ident × Bool × Bool)
  | .connect name port net isSuppressed =>
      if isNameOf made key.1 name && port == key.2 then some (net.id, false, isSuppressed) else none
  | .applyDefault inst d =>
      if (inst.id, d.port) == key then some (d.net.id, true, false) else none
  | _ => none

theorem map_gist_withEndpoint {s : Atomizing} {b : Bound} (key : Ident × String)
    (hfree : s.bound[(b.endpoint.inst, b.endpoint.port)]? = none) :
    ((s.withEndpoint b).bound[key]?).map Bound.gist = ((s.bound[key]?).map Bound.gist).or
      (if (b.endpoint.inst, b.endpoint.port) == key then some b.gist else none) := by
  rw [withEndpoint, Std.HashMap.getElem?_insert]
  by_cases hkey : (b.endpoint.inst, b.endpoint.port) = key
  · subst hkey
    simp [hfree]
  · simp [hkey]

/-- A step binds a port as its event asks, unless the port is bound already. -/
theorem Step.first_binding {e : Event} (h : Step s e s') {made : List Instance}
    (hmade : ∀ (name : String) (inst : Instance), s.instances[name]? = some inst →
      made.find? (·.name == name) = some inst) (key : Ident × String) :
    (s'.bound[key]?).map Bound.gist =
      ((s.bound[key]?).map Bound.gist).or (bindingAt made key e) := by
  -- a port that is bound stays so, whatever the event asks for
  have hkept : ∀ {k : Ident × String} {b : Bound} (g : Option (Ident × Bool × Bool)),
      s.bound[k]? = some b → (k ≠ key → g = none) →
      (s.bound[key]?).map Bound.gist = ((s.bound[key]?).map Bound.gist).or g := by
    intro k b g hb hg
    by_cases hk : k = key
    · rw [← hk, hb]
      rfl
    · rw [hg hk, Option.or_none]
  cases h with
  | connect name net b hinst hfree hid hb hnet hdefault =>
      rw [map_gist_withEndpoint key hfree, bindingAt, isNameOf, hmade name _ hinst]
      have hgist : b.gist = (net.id, false, b.isSuppressed) := by rw [Bound.gist, hnet, hdefault]
      obtain ⟨id, port⟩ := key
      rw [hgist, hb]
      simp [Prod.ext_iff]
  | again name port net isSuppressed hinst hb hsame =>
      refine hkept _ hb fun hne => ?_
      obtain ⟨id, port'⟩ := key
      rw [bindingAt, isNameOf, hmade name _ hinst, if_neg]
      simpa [Prod.ext_iff] using hne
  | applyDefault inst d b hfree hid hb hport hnet hdefault hmark =>
      have hgist : b.gist = (d.net.id, true, false) := by rw [Bound.gist, hnet, hdefault, hmark]
      rw [map_gist_withEndpoint key hfree, bindingAt, hgist, hb, hport]
  | overridden inst d hb =>
      refine hkept _ hb fun hne => ?_
      rw [bindingAt, if_neg (by simpa using hne)]
  | _ => simp [bindingAt, withInstance, withNet]

theorem Trace.instance_kept (h : Trace s es s') {name : String}
    {inst : Instance} (hname : s.instances[name]? = some inst) :
    s'.instances[name]? = some inst := by
  rw [h.tables.instances, hname]
  rfl

/-- A run binds a port as the first event asks that speaks of it. -/
theorem Trace.first_binding (h : Trace s es s')
    {made : List Instance} (hmade : ∀ (name : String) (inst : Instance),
      s'.instances[name]? = some inst → made.find? (·.name == name) = some inst)
    (key : Ident × String) : (s'.bound[key]?).map Bound.gist =
      ((s.bound[key]?).map Bound.gist).or (es.findSome? (bindingAt made key)) := by
  induction h with
  | nil s => simp
  | cons hstep hrest ih =>
      have hfirst := hstep.first_binding
        (fun name inst hname =>
          hmade name inst ((hstep.trace.append hrest).instance_kept hname)) key
      rw [ih hmade, hfirst, Option.or_assoc, List.findSome?_cons]
      congr 1
      cases bindingAt made key _ <;> rfl

/-! ## Markers -/

/-- Every endpoint atom is connected to a net, with the marker of its expression. -/
theorem EndpointEvents.exists_connect {id : Ident} {noSplice : Bool}
    {e : DesignExpression} {x : Expansion} (hx : (i.expand id noSplice).value = some (e, x))
    {nets : List Net} (hlen : x.atoms.length = nets.length) {d : DesignEndpoint}
    (h : EndpointEvents i x nets d es) : ∃ e' y atoms, i.expressions[d.expression]? = some e' ∧
      (Pattern.expandEndpoint (i.options e' false) e'.raw).value = some (y, atoms) ∧
      (∀ a ∈ atoms, ∃ net, .connect a.inst a.port net d.isSuppressed ∈ es) ∧
      ∀ f ∈ es, ∃ a ∈ atoms, ∃ net, f = .connect a.inst a.port net d.isSuppressed := by
  obtain ⟨e', y, atoms, b, he', hy, hb, rfl⟩ := h
  obtain ⟨hexp, hatoms⟩ := Pattern.expandEndpoint_eq_some hy
  obtain ⟨hindex, hlt⟩ := Axis.bindOrPair_complete (AtomizeInput.expand_eq_some hx).2 hexp hb
  refine ⟨e', y, atoms, he', hy, fun a ha => ?_, fun f hf => ?_⟩
  · obtain ⟨n, hn, rfl⟩ := List.getElem_of_mem ha
    have hn' : n < b.netIndex.length := by rwa [hindex, ← hatoms]
    have hk : b.netIndex[n] < nets.length := hlen ▸ hlt _ (List.getElem_mem hn')
    refine ⟨nets[b.netIndex[n]], List.mem_flatMap.mpr ⟨(atoms[n], b.netIndex[n]), ?_, ?_⟩⟩
    · refine List.mem_of_getElem? (i := n) ?_
      rw [List.getElem?_zip_eq_some]
      exact ⟨List.getElem?_eq_getElem hn, List.getElem?_eq_getElem hn'⟩
    · simp [List.getElem?_eq_getElem hk]
  · obtain ⟨q, hq, hf⟩ := List.mem_flatMap.mp hf
    obtain ⟨net, _, rfl⟩ := Option.map_eq_some_iff.mp (Option.mem_toList.mp hf)
    exact ⟨q.1, (List.of_mem_zip hq).1, net, rfl⟩

theorem EndpointEvents.mark_eq {id : Ident} {noSplice : Bool}
    {e : DesignExpression} {x : Expansion} (hx : (i.expand id noSplice).value = some (e, x))
    {nets : List Net} (hlen : x.atoms.length = nets.length) {d : DesignEndpoint}
    (h : EndpointEvents i x nets d es) (made : List Instance) (key : Ident × String) :
    (es.findSome? fun f => (bindingAt made key f).map (·.2)) =
      if i.names made key.1 key.2 d then some (false, d.isSuppressed) else none := by
  obtain ⟨e', y, atoms, he', hy, hconnect, hall⟩ := h.exists_connect hx hlen
  have hnames : i.names made key.1 key.2 d =
      atoms.any fun a => isNameOf made key.1 a.inst && a.port == key.2 := by
    simp [AtomizeInput.names, he', hy]
  rw [hnames]
  split
  · rename_i hany
    obtain ⟨a, ha, hnamed⟩ := List.any_eq_true.mp hany
    obtain ⟨net, hmem⟩ := hconnect a ha
    refine findSome?_eq_of_forall ⟨_, hmem, by simp [bindingAt, hnamed]⟩ fun f hf => ?_
    obtain ⟨a', _, net', rfl⟩ := hall f hf
    rw [bindingAt]
    split
    · exact Or.inl rfl
    · exact Or.inr rfl
  · rename_i hany
    refine List.findSome?_eq_none_iff.mpr fun f hf => ?_
    obtain ⟨a, ha, net, rfl⟩ := hall f hf
    rw [bindingAt, if_neg fun hnamed => hany (List.any_eq_true.mpr ⟨a, ha, hnamed⟩)]
    rfl

/-- A search through the rounds of a loop is a search through what the loop goes over. -/
theorem findSome?_flatten_of_forall₂ {α β γ : Type} {f : β → Option γ} {g : α → Option γ}
    {l : List α} {ess : List (List β)} (h : List.Forall₂ (fun a es => es.findSome? f = g a) l ess) :
    ess.flatten.findSome? f = l.findSome? g := by
  induction h with
  | nil => rfl
  | cons hes _ ih =>
      rw [List.flatten_cons, List.findSome?_append, hes, ih, List.findSome?_cons]
      cases g _ <;> rfl

theorem findSome?_ite {α β : Type} (p : α → Bool) (g : α → β) (l : List α) :
    (l.findSome? fun a => if p a then some (g a) else none) = (l.find? p).map g := by
  induction l with
  | nil => rfl
  | cons a l ih => cases hp : p a <;> simp [hp, ih]

theorem NetEvents.mark_eq {d : DesignNet}
    (h : NetEvents i d es) (made : List Instance) (key : Ident × String) :
    (es.findSome? fun f => (bindingAt made key f).map (·.2)) =
      (d.endpoints.find? (i.names made key.1 key.2)).map fun d => (false, d.isSuppressed) := by
  obtain ⟨e, x, nets, ess, hx, hnets, hess, rfl⟩ := h
  have hmade : ((nets.map Event.net).findSome? fun f => (bindingAt made key f).map (·.2)) =
      none := by
    refine List.findSome?_eq_none_iff.mpr fun f hf => ?_
    obtain ⟨net, _, rfl⟩ := List.mem_map.mp hf
    rfl
  have hports : ((if d.isPort then [Event.ports (nets.map (·.name))] else []).findSome? fun f =>
      (bindingAt made key f).map (·.2)) = none := by split <;> rfl
  rw [List.findSome?_append, List.findSome?_append, hmade, hports, Option.none_or, Option.none_or,
    ← findSome?_ite]
  exact findSome?_flatten_of_forall₂ (hess.imp fun ep fs hfs =>
    hfs.mark_eq hx hnets.length_eq made key)

/-- Among what is declared, the first event for a port has the marker of the first endpoint
expression for it. -/
theorem DeclaredEvents.mark_eq {iss ess : List (List Event)}
    (h : DeclaredEvents i iss ess es) (made : List Instance) (key : Ident × String) :
    (es.findSome? (bindingAt made key)).map (·.2) =
      (i.marks made key.1 key.2).head?.map fun isSuppressed => (false, isSuppressed) := by
  obtain ⟨name, rfl⟩ := h.eq_append
  have hinsts : iss.flatten.findSome? (fun f => (bindingAt made key f).map (·.2)) = none := by
    refine List.findSome?_eq_none_iff.mpr fun f hf => ?_
    obtain ⟨fs, hfs, hf⟩ := List.mem_flatten.mp hf
    obtain ⟨_, _, _, _, insts, _, _, _, rfl⟩ := forall₂_exists_of_mem_right h.instances hfs
    obtain ⟨inst, _, rfl⟩ := List.mem_map.mp hf
    rfl
  have hnets := findSome?_flatten_of_forall₂ (h.nets.imp fun d fs hfs => hfs.mark_eq made key)
  rw [List.map_findSome?]
  change List.findSome? (fun f => (bindingAt made key f).map (·.2)) _ = _
  rw [List.findSome?_cons_of_isNone (by rfl), List.findSome?_append, hinsts, Option.none_or, hnets,
    AtomizeInput.marks, List.head?_map, List.head?_filter, List.find?_flatMap, Option.map_map,
    List.map_findSome?]
  rfl

/-! ## Whole runs -/

section

variable {i : AtomizeInput} {alloc : Allocator} {s₁ s' : Atomizing} {iss ess : List (List Event)}
  {es : List Event} {resolved : List (List ResolvedDefault)} (hdecl : DeclaredEvents i iss ess es)
  (hfirst : Trace (start i alloc) es s₁)
  (hlast : Trace s₁ ((defaultPairs s₁.made resolved.flatten).map fun q => .applyDefault q.1 q.2) s')
  (hsmall : s'.modul.Small)

include hfirst

theorem made_eq : s₁.made = (es.filterMap Event.inst?).reverse :=
  List.reverse_eq_iff.mp hfirst.tables.made

theorem getElem?_nets_eq (name : String) :
    s₁.nets[name]? = (es.filterMap Event.net?).find? (·.name == name) := by
  rw [hfirst.tables.nets]
  simp [start]

include hlast

theorem getElem?_instances_eq (name : String) :
    s'.instances[name]? = (es.filterMap Event.inst?).find? (·.name == name) := by
  have hnone : ((defaultPairs s₁.made resolved.flatten).map fun q =>
      Event.applyDefault q.1 q.2).filterMap Event.inst? = [] := by
    rw [List.filterMap_map]
    exact List.filterMap_eq_nil_iff.mpr fun _ _ => rfl
  rw [hlast.tables.instances, hfirst.tables.instances, hnone]
  simp [start]

include hsmall

theorem mem_made_iff (inst : Instance) :
    inst ∈ es.filterMap Event.inst? ↔ s'.modul.instances[inst.id]? = some inst := by
  have hs₁ := (hfirst.keeps (start_consistent i alloc) (hlast.small hsmall)).1
  rw [hlast.default_same.1, ← List.mem_reverse, ← made_eq hfirst]
  exact ⟨fun h => (hs₁.made_instance inst h).1, fun h => (hs₁.instance_made _ inst h).2⟩

/-- A port is bound as the first endpoint atom asks that names it, or else as the first default
binding for it asks. -/
theorem bound_eq {inst : Instance} (hinst : inst ∈ es.filterMap Event.inst?) (port : String) :
    (s'.bound[(inst.id, port)]?).map Bound.gist =
      (es.findSome? (bindingAt (es.filterMap Event.inst?) (inst.id, port))).or
        (((resolved.flatten.filter fun d => d.definition == inst.ref.id).find?
          (·.port == port)).map fun d => (d.net.id, true, false)) := by
  have hfound := (hfirst.append hlast).first_binding
    (fun name inst hname => (getElem?_instances_eq hfirst hlast name).symm.trans hname)
    (inst.id, port)
  have hone : ∀ j ∈ s₁.made, j.id = inst.id → j = inst := by
    intro j hj hid
    rw [made_eq hfirst, List.mem_reverse, mem_made_iff hfirst hlast hsmall, hid,
      (mem_made_iff hfirst hlast hsmall inst).mp hinst] at hj
    exact (Option.some.inj hj).symm
  have hmem : inst ∈ s₁.made := by rwa [made_eq hfirst, List.mem_reverse]
  have hdefaults : ((defaultPairs s₁.made resolved.flatten).map fun q =>
      Event.applyDefault q.1 q.2).findSome?
        (bindingAt (es.filterMap Event.inst?) (inst.id, port)) =
      ((resolved.flatten.filter fun d => d.definition == inst.ref.id).find?
        (·.port == port)).map fun d => (d.net.id, true, false) := by
    rw [List.findSome?_map]
    refine (findSome?_ite (fun q : Instance × ResolvedDefault =>
      (q.1.id, q.2.port) == (inst.id, port)) (fun q => (q.2.net.id, true, false)) _).trans ?_
    rw [find?_defaultPairs hmem hone port, Option.map_map]
    rfl
  rw [hfound, List.findSome?_append, hdefaults]
  simp [start]

omit hfirst hlast hsmall in
/-- The first default binding for a port has a net, too. -/
theorem exists_first_default (hresolves : List.Forall₂ (fun (d : DesignDefault) rs =>
      List.Forall₂ (Resolves i s₁ d.ref.id) d.bindings rs) i.decl.defaults resolved)
    {definition : Ident} {b : DesignBinding} (hb : b ∈ i.defaultsOf definition) :
    ∃ b₁ r₁, (i.defaultsOf definition).find? (·.port == b.port) = some b₁ ∧
      (resolved.flatten.filter fun d => d.definition == definition).find? (·.port == b.port) =
        some r₁ ∧ Resolves i s₁ definition b₁ r₁ := by
  have hpq : ∀ (c : DesignBinding) (r : ResolvedDefault), Resolves i s₁ definition c r →
      (c.port == b.port) = (r.port == b.port) := fun c r hr => by rw [hr.port_eq]
  rcases forall₂_find? (forall₂_defaultsOf definition hresolves) hpq with ⟨hnone, _⟩ | hfound
  · exact absurd (beq_self_eq_true b.port) (List.find?_eq_none.mp hnone b hb)
  · exact hfound

include hdecl

/-- The binding of a port that there is a default binding for. -/
theorem exists_bound {inst : Instance} (hinst : inst ∈ es.filterMap Event.inst?) {port : String}
    {r : ResolvedDefault} (hr : (resolved.flatten.filter fun d =>
      d.definition == inst.ref.id).find? (·.port == port) = some r) :
    ∃ b, s'.bound[(inst.id, port)]? = some b ∧
      (b.isSuppressed = true ↔
        (i.marks (es.filterMap Event.inst?) inst.id port).head? = some true) ∧
      (b.endpoint.isDefault = true ↔ i.marks (es.filterMap Event.inst?) inst.id port = []) ∧
      (b.endpoint.isDefault = true → b.endpoint.net = r.net.id) := by
  have hbound := bound_eq hfirst hlast hsmall hinst port
  have hmarks := hdecl.mark_eq (es.filterMap Event.inst?) (inst.id, port)
  rw [hr] at hbound
  cases hfound : es.findSome? (bindingAt (es.filterMap Event.inst?) (inst.id, port)) with
  | none =>
      rw [hfound, Option.none_or] at hbound
      obtain ⟨b, hb, hgist⟩ := Option.map_eq_some_iff.mp hbound
      obtain ⟨hnet, hdefault, hmark⟩ : _ ∧ _ ∧ _ := by simpa [Bound.gist] using hgist
      have hnil : i.marks (es.filterMap Event.inst?) inst.id port = [] := by
        simpa [hfound] using hmarks.symm
      exact ⟨b, hb, by simp [hmark, hnil], by simp [hdefault, hnil], fun _ => hnet⟩
  | some found =>
      rw [hfound, Option.some_or] at hbound
      obtain ⟨b, hb, rfl⟩ := Option.map_eq_some_iff.mp hbound
      rw [hfound] at hmarks
      obtain ⟨mark, hhead, hgist⟩ := Option.map_eq_some_iff.mp hmarks.symm
      obtain ⟨hdefault, hmark⟩ := Prod.mk.inj hgist
      have hne : i.marks (es.filterMap Event.inst?) inst.id port ≠ [] := by
        intro hnil
        rw [hnil] at hhead
        cases hhead
      refine ⟨b, hb, ?_, ?_, fun h => ?_⟩
      · rw [hhead, hmark, Option.some.injEq]
      · rw [← hdefault]
        exact iff_of_false Bool.false_ne_true hne
      · rw [← hdefault] at h
        cases h

end

end Atomizing

end Netlist
