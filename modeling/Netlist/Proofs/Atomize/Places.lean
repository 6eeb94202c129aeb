import Netlist.Proofs.Atomize.Design
import Netlist.Proofs.Design.Build
import Netlist.Proofs.Program.Findings

/-!
# What atomizing keeps

A module in the making has an invariant (`Atomizing.Sane`) that no report can break: what is in it
is in the region, its instances refer to what they may refer to, every endpoint joins a net of the
module to an instance of the module, by the net that its port is bound to, and every port is the
name of a net that was made.  Identifiers may wrap around and replace what was made before, for a
key that is in a table stays in it; only that the net of a port is still there is said of modules
with fewer nets than there are identifiers.

Where the module speaks only of expressions of the table, atomizing it reports what is proper
(`meets_atomizeAll`).
-/

namespace Netlist

open Diagnostic (Proper)
open Logged (Discipline ensures_pure ensures_report)
open Logged.Discipline (meets_pure meets_get meets_modify meets_mapM meets_forIn meets_of_inv)

/-! ## Expressions -/

section Expressions

variable {r : Region}

namespace Pattern

theorem Options.readSpan_mem {o : Options} (h : o.span ∈ r) : o.readSpan ∈ r := by
  unfold readSpan
  split
  · exact r.nowhere
  · exact h

theorem Options.proper_part {o : Options} (h : o.span ∈ r) (p : Problem) (start stop : Nat) :
    (p.at_ (o.readSpan.slice start stop)).Proper r :=
  Problem.proper_at (Region.slice (readSpan_mem h) _ _) p

theorem ensures_expand {o : Options} (h : o.span ∈ r) (raw : String) :
    (expand o raw).Ensures (Proper r) fun _ => True :=
  ⟨reports_expand (Problem.proper_at h) (o.proper_part h) raw, trivial⟩

theorem ensures_expandEndpoint {o : Options} (h : o.span ∈ r) (raw : String) :
    (expandEndpoint o raw).Ensures (Proper r) fun _ => True :=
  ⟨reports_expandEndpoint (Problem.proper_at h) (o.proper_part h) raw, trivial⟩

end Pattern

theorem Axis.Problem.proper_at {span : Span} (hspan : span ∈ r) (p : Axis.Problem) :
    (p.at_ span).Proper r := by
  refine Diagnostic.proper_error hspan (by simp) ?_
  cases p <;> simp only [Axis.Problem.code] <;> decide

/-- What binding reports is at the span it is given. -/
theorem Axis.ensures_bindOrPair (net endpoint : Pattern.Expansion) {span : Span}
    (hspan : span ∈ r) : (Axis.bindOrPair net endpoint span).Ensures (Proper r) fun _ => True :=
  ⟨reports_bindOrPair (Problem.proper_at hspan) net endpoint, trivial⟩

end Expressions

/-! ## The invariant -/

/-- The nets have the identifiers that were given out last, and a name leads to a net of that name
in the module. -/
structure Atomizing.NetsKept (s : Atomizing) : Prop where
  numbered : ∃ start, Numbered .net start (s.alloc.lastOf .net) s.modul.nets
  named : ∀ (name : String) (n : Net), s.nets[name]? = some n →
    n.name = name ∧ s.modul.nets[n.id]? = some n

/-- What is made so far is in the region, refers to what it may refer to, and fits together. -/
structure Atomizing.Sane (r : Region) (refs : Ref → Prop) (s : Atomizing) : Prop where
  span : s.modul.span ∈ r
  net : ∀ (k : Ident) (n : Net), s.modul.nets[k]? = some n → n.span ∈ r
  inst : ∀ (k : Ident) (i : Instance), s.modul.instances[k]? = some i → i.span ∈ r ∧ refs i.ref
  endpoint : ∀ (k : Ident) (e : Endpoint), s.modul.endpoints[k]? = some e →
    e.span ∈ r ∧ e.net ∈ s.modul.nets ∧ e.inst ∈ s.modul.instances ∧
      ∃ b, s.bound[(e.inst, e.port)]? = some b ∧ b.endpoint.net = e.net
  bound : ∀ (key : Ident × String) (b : Bound), s.bound[key]? = some b → b.endpoint.span ∈ r
  net_named : ∀ (name : String) (n : Net), s.nets[name]? = some n → n.id ∈ s.modul.nets
  inst_named : ∀ (name : String) (i : Instance), s.instances[name]? = some i →
    i.id ∈ s.modul.instances
  made : ∀ i ∈ s.made, i.id ∈ s.modul.instances
  ports : ∀ port ∈ s.modul.portList, port ∈ s.nets
  kept : s.modul.nets.size < idLimit → s.NetsKept

namespace Atomizing

variable {r : Region} {refs : Ref → Prop} {s : Atomizing}

/-- A new instance keeps the state in order. -/
theorem Sane.withInstance (h : s.Sane r refs) {i : Instance} (hspan : i.span ∈ r)
    (href : refs i.ref) : (s.withInstance i).Sane r refs := by
  have hkeep : ∀ {k : Ident}, k ∈ s.modul.instances → k ∈ s.modul.instances.insert i.id i :=
    fun hk => Std.ExtTreeMap.mem_insert.mpr (.inr hk)
  refine ⟨h.span, h.net, fun k j hj => ?_, fun k e he => ?_, h.bound, h.net_named,
    fun name j hj => ?_, List.forall_mem_cons.mpr ⟨Std.ExtTreeMap.mem_insert_self, fun j hj => ?_⟩,
    h.ports, fun hsize => ⟨?_, (h.kept hsize).named⟩⟩
  · rcases IdMap.of_getElem?_insert hj with ⟨_, rfl⟩ | hj
    · exact ⟨hspan, href⟩
    · exact h.inst k j hj
  · obtain ⟨he, hnet, hinst, hbound⟩ := h.endpoint k e he
    exact ⟨he, hnet, hkeep hinst, hbound⟩
  · rcases of_getElem?_insertIfNew hj with ⟨_, rfl⟩ | hj
    · exact Std.ExtTreeMap.mem_insert_self
    · exact hkeep (h.inst_named name j hj)
  · exact hkeep (h.made j hj)
  · simpa [Atomizing.withInstance, IdKind.net, IdKind.instance_] using (h.kept hsize).numbered

/-- A new net has a new identifier, so no net is lost. -/
theorem NetsKept.withNet (h : s.NetsKept) (hsize : s.modul.nets.size < idLimit) {n : Net}
    (hid : n.id = (s.alloc.next .net).1) : (s.withNet n).NetsKept := by
  obtain ⟨start, hnumbered⟩ := h.numbered
  refine ⟨⟨start, ?_⟩, fun name m hm => ?_⟩
  · simp only [Atomizing.withNet, Allocator.lastOf_next_self, hid]
    exact hnumbered.insert hsize n
  · rcases of_getElem?_insertIfNew hm with ⟨rfl, rfl⟩ | hm
    · exact ⟨rfl, Std.ExtTreeMap.getElem?_insert_self⟩
    · obtain ⟨hname, hget⟩ := h.named name m hm
      have hnew : n.id ∉ s.modul.nets := hid ▸ hnumbered.not_mem hsize
      exact ⟨hname, IdMap.getElem?_insert_of_not_mem hnew hget⟩

theorem Sane.withNet (h : s.Sane r refs) {n : Net} (hspan : n.span ∈ r)
    (hid : n.id = (s.alloc.next .net).1) : (s.withNet n).Sane r refs := by
  have hkeep : ∀ {k : Ident}, k ∈ s.modul.nets → k ∈ s.modul.nets.insert n.id n :=
    fun hk => Std.ExtTreeMap.mem_insert.mpr (.inr hk)
  refine ⟨h.span, fun k m hm => ?_, h.inst, fun k e he => ?_, h.bound, fun name m hm => ?_,
    h.inst_named, h.made, fun port hport => ?_, fun hsize => ?_⟩
  · rcases IdMap.of_getElem?_insert hm with ⟨_, rfl⟩ | hm
    · exact hspan
    · exact h.net k m hm
  · obtain ⟨he, hnet, hrest⟩ := h.endpoint k e he
    exact ⟨he, hkeep hnet, hrest⟩
  · rcases of_getElem?_insertIfNew hm with ⟨_, rfl⟩ | hm
    · exact Std.ExtTreeMap.mem_insert_self
    · exact hkeep (h.net_named name m hm)
  · exact Std.HashMap.mem_insertIfNew.mpr (.inr (h.ports port hport))
  · have hless : s.modul.nets.size < idLimit :=
      Nat.lt_of_le_of_lt Std.ExtTreeMap.size_le_size_insert hsize
    exact (h.kept hless).withNet hless hid

/-- The port of a new endpoint was free, so what bound the other endpoints still does. -/
theorem Sane.withEndpoint (h : s.Sane r refs) {b : Bound}
    (hfree : s.bound[(b.endpoint.inst, b.endpoint.port)]? = none) (hspan : b.endpoint.span ∈ r)
    (hnet : b.endpoint.net ∈ s.modul.nets) (hinst : b.endpoint.inst ∈ s.modul.instances) :
    (s.withEndpoint b).Sane r refs := by
  refine ⟨h.span, h.net, h.inst, fun k e he => ?_, fun key c hc => ?_, h.net_named, h.inst_named,
    h.made, h.ports, fun hsize => ⟨?_, (h.kept hsize).named⟩⟩
  · rcases IdMap.of_getElem?_insert he with ⟨_, rfl⟩ | he
    · exact ⟨hspan, hnet, hinst, b, Std.HashMap.getElem?_insert_self, rfl⟩
    · obtain ⟨he, hnet, hinst, c, hc, hsame⟩ := h.endpoint k e he
      exact ⟨he, hnet, hinst, c, (extends_withEndpoint hfree).bound _ c hc, hsame⟩
  · rw [Atomizing.withEndpoint, Std.HashMap.getElem?_insert] at hc
    split at hc
    · cases hc
      exact hspan
    · exact h.bound key c hc
  · simpa [Atomizing.withEndpoint, IdKind.net, IdKind.endpoint] using (h.kept hsize).numbered

/-- Names of nets that were made may become ports. -/
theorem Sane.withPorts (h : s.Sane r refs) {names : List String}
    (hnames : ∀ name ∈ names, name ∈ s.nets) :
    Sane r refs { s with modul := { s.modul with ports := some (s.modul.portList ++ names) } } :=
  { h with
    ports := List.forall_mem_append.mpr ⟨h.ports, hnames⟩
    kept := fun hsize => ⟨(h.kept hsize).numbered, (h.kept hsize).named⟩ }

/-- The module is the same, and what is in its tables stays in them. -/
structure Grows (s s' : Atomizing) : Prop where
  id : s'.modul.id = s.modul.id
  nets : ∀ k ∈ s.modul.nets, k ∈ s'.modul.nets
  instances : ∀ k ∈ s.modul.instances, k ∈ s'.modul.instances
  names : ∀ name ∈ s.nets, name ∈ s'.nets

theorem Grows.refl (s : Atomizing) : s.Grows s :=
  ⟨rfl, fun _ hk => hk, fun _ hk => hk, fun _ hname => hname⟩

/-- A module in the making grows and stays sane. -/
def discipline (r : Region) (refs : Ref → Prop) : Discipline Atomizing where
  Report := Proper r
  Inv := Sane r refs
  Grows := Grows
  refl := Grows.refl
  trans h h' := ⟨h'.id.trans h.id, fun k hk => h'.nets k (h.nets k hk),
    fun k hk => h'.instances k (h.instances k hk), fun n hn => h'.names n (h.names n hn)⟩

end Atomizing

open Atomizing (discipline instanceOf netOf)

/-! ## Steps -/

section Steps

variable {r : Region} {refs : Ref → Prop} {s : Atomizing}

theorem Atomize.meets_logged {α : Type} {x : Logged α} {Q : α → Prop}
    (h : x.Ensures (Proper r) Q) : (discipline r refs).Meets s (logged x) fun a _ => Q a :=
  Discipline.meets_logged h

/-- Only an unknown expression is an internal error. -/
theorem AtomizeProblem.proper_at {span : Span} (hspan : span ∈ r) {p : AtomizeProblem}
    (hnotes : ∀ n ∈ (p.at_ span).notes, n.span ∈ r)
    (hp : ∀ modul id, p ≠ .unknownExpression modul id) : (p.at_ span).Proper r := by
  refine ⟨?_, ?_, hnotes, ?_⟩
  · cases p with
    | defaultOverride => exact .inl rfl
    | _ => exact .inr rfl
  · cases p <;> exact hspan
  · cases p with
    | unknownExpression modul id => exact absurd rfl (hp modul id)
    | _ =>
      simp only [at_, Diagnostic.error, Diagnostic.warning]
      decide

theorem Atomize.meets_report {span : Span} (hspan : span ∈ r) {p : AtomizeProblem}
    (hnotes : ∀ n ∈ (p.at_ span).notes, n.span ∈ r)
    (hp : ∀ modul id, p ≠ .unknownExpression modul id) :
    (discipline r refs).Meets s (report span p) fun _ _ => True :=
  meets_logged (Q := fun _ => True)
    (ensures_report (AtomizeProblem.proper_at hspan hnotes hp) trivial)

theorem meets_addInstance {ref : Ref} (href : refs ref) {e : DesignExpression} (he : e.span ∈ r)
    (x : Pattern.Expansion) (a : Pattern.Atom) (params : List Param) :
    (discipline r refs).Meets s (addInstance ref e x a params) fun _ _ => True := by
  intro hs
  have hinst := hs.withInstance (i := instanceOf ref e x a params (s.alloc.next .instance_).1) he
    href
  exact ⟨Logged.reports_pure _, hinst, { Atomizing.Grows.refl s with
    instances := fun k hk => Std.ExtTreeMap.mem_insert.mpr (.inr hk) }, trivial⟩

/-- A net that is added can be found by its identifier and its name. -/
theorem meets_addNet (isPort : Bool) {e : DesignExpression} (he : e.span ∈ r)
    (x : Pattern.Expansion) (a : Pattern.Atom) :
    (discipline r refs).Meets s (addNet isPort e x a) fun n s' =>
      n.id ∈ s'.modul.nets ∧ n.name ∈ s'.nets := by
  intro hs
  have hnet := hs.withNet (n := netOf isPort e x a (s.alloc.next .net).1) he rfl
  exact ⟨Logged.reports_pure _, hnet, { Atomizing.Grows.refl s with
    nets := fun k hk => Std.ExtTreeMap.mem_insert.mpr (.inr hk)
    names := fun name hname => Std.HashMap.mem_insertIfNew.mpr (.inr hname) },
    Std.ExtTreeMap.mem_insert_self, Std.HashMap.mem_insertIfNew_self⟩

/-- A port is bound to a net and an instance of the module. -/
theorem meets_bindPort {net inst : Ident} {port : String} {span : Span}
    (isDefault isSuppressed : Bool) (hfree : s.bound[(inst, port)]? = none) (hspan : span ∈ r)
    (hnet : net ∈ s.modul.nets) (hinst : inst ∈ s.modul.instances) :
    (discipline r refs).Meets s (bindPort net inst port span isDefault isSuppressed)
      fun _ _ => True := by
  intro hs
  have hbound := hs.withEndpoint (b := ⟨⟨(s.alloc.next .endpoint).1, net, inst, port, isDefault,
    span⟩, isSuppressed⟩) hfree hspan hnet hinst
  exact ⟨Logged.reports_pure _, hbound, { Atomizing.Grows.refl s with }, trivial⟩

end Steps

/-! ## Declarations -/

namespace AtomizeInput

/-- The module that is atomized is closed, and the expressions are in the region. -/
structure Closed (r : Region) (refs : Ref → Prop) (i : AtomizeInput) : Prop where
  expressions : ∀ (k : Ident) (e : DesignExpression), i.expressions[k]? = some e → e.span ∈ r
  decl : i.decl.Closed r refs i.expressions

end AtomizeInput

section Declarations

variable {r : Region} {refs : Ref → Prop} {i : AtomizeInput} (hi : i.Closed r refs) {s : Atomizing}

include hi

/-- An expression that the design has is found. -/
theorem AtomizeInput.ensures_expression {id : Ident} (hid : id ∈ i.expressions) :
    (i.expression id).Ensures (Proper r) fun found => ∀ e ∈ found, e.span ∈ r := by
  obtain ⟨e, he⟩ := Option.isSome_iff_exists.mp (Std.ExtTreeMap.mem_iff_isSome_getElem?.mp hid)
  rw [expression, he]
  refine ensures_pure fun e' he' => ?_
  cases he'
  exact hi.expressions id e he

theorem AtomizeInput.ensures_expand {id : Ident} (hid : id ∈ i.expressions) (noSplice : Bool) :
    (i.expand id noSplice).Ensures (Proper r) fun found => ∀ p ∈ found, p.1.span ∈ r := by
  refine (ensures_expression hi hid).bind fun found hfound => ?_
  cases found with
  | none =>
      refine ensures_pure fun p hp => ?_
      cases hp
  | some e =>
      refine (Pattern.ensures_expand (o := i.options e noSplice) (hfound e rfl) e.raw).bind
        fun x _ => ensures_pure fun p hp => ?_
      obtain ⟨x, _, rfl⟩ := Option.map_eq_some_iff.mp hp
      exact hfound e rfl

theorem ensures_paramValues (inst : DesignExpression) (count : Nat) (params : List DesignParam) :
    (∀ p ∈ params, p.expression ∈ i.expressions) →
      (paramValues i inst count params).Ensures (Proper r) fun _ => True := by
  induction params with
  | nil => exact fun _ => ensures_pure trivial
  | cons p params ih =>
      intro hparams
      obtain ⟨hp, hparams⟩ := List.forall_mem_cons.mp hparams
      have hrest : ∀ own : List (String × List String), (do
          return own ++ (← paramValues i inst count params)).Ensures (Proper r) fun _ => True :=
        fun own => (ih hparams).bind fun _ _ => ensures_pure trivial
      rw [paramValues]
      refine (AtomizeInput.ensures_expand hi hp _).bind fun found hfound => ?_
      cases found with
      | none => exact (ensures_pure (Q := fun _ => True) trivial).bind fun own _ => hrest own
      | some q =>
          obtain ⟨e, x⟩ := q
          dsimp only
          split
          · refine (ensures_report (Q := fun _ => True) (AtomizeProblem.proper_at (hfound _ rfl)
              (by simp [AtomizeProblem.at_, Diagnostic.error]) (by simp)) trivial).bind
              fun _ _ => ?_
            exact (ensures_pure (Q := fun _ => True) trivial).bind fun own _ => hrest own
          · exact (ensures_pure (Q := fun _ => True) trivial).bind fun own _ => hrest own

theorem meets_atomizeName : (discipline r refs).Meets s (atomizeName i) fun _ _ => True := by
  refine (Atomize.meets_logged (AtomizeInput.ensures_expand hi hi.decl.name _)).bind
    fun found s₁ _ hfound => ?_
  cases found with
  | none => exact meets_pure trivial
  | some p =>
      obtain ⟨e, x⟩ := p
      dsimp only
      split
      · refine meets_modify (fun hs => { hs with
          kept := fun hsize => ⟨(hs.kept hsize).numbered, (hs.kept hsize).named⟩ })
          { Atomizing.Grows.refl s₁ with } trivial
      · exact Atomize.meets_report (hfound _ rfl) (by simp [AtomizeProblem.at_, Diagnostic.error])
          (by simp)

theorem meets_atomizeInstance {d : DesignInstance} (hd : d.Known refs i.expressions) :
    (discipline r refs).Meets s (atomizeInstance i d) fun _ _ => True := by
  refine (Atomize.meets_logged (AtomizeInput.ensures_expand hi hd.expression _)).bind
    fun found s₁ _ hfound => ?_
  cases found with
  | none => exact meets_pure trivial
  | some p =>
      obtain ⟨e, x⟩ := p
      refine (Atomize.meets_logged (ensures_paramValues hi e x.length d.params hd.params)).bind
        fun values s₂ _ _ => ?_
      refine Discipline.Meets.bind (Q := fun _ _ => True) (meets_forIn fun q _ s₃ _ => ?_)
        fun _ _ _ _ => meets_pure trivial
      exact (meets_addInstance hd.ref (hfound _ rfl) x q.1 q.2).bind
        fun _ _ _ _ => meets_pure trivial

omit hi in
theorem meets_connect {e : DesignExpression} (he : e.span ∈ r) (isSuppressed : Bool)
    (a : Pattern.EndpointAtom) {net : Net} (hnet : net.id ∈ s.modul.nets) :
    (discipline r refs).Meets s (connect e isSuppressed a net) fun _ _ => True := by
  refine meets_of_inv fun hs => meets_get ?_
  split
  · exact Atomize.meets_report he (by simp [AtomizeProblem.at_, Diagnostic.error]) (by simp)
  · next inst hinst =>
    split
    · next hfree =>
      exact meets_bindPort _ _ hfree he hnet (hs.inst_named _ inst hinst)
    · next b hb =>
      split
      · refine Atomize.meets_report he ?_ (by simp)
        exact List.forall_mem_singleton.mpr (hs.bound _ b hb)
      · exact meets_pure trivial

/-- Endpoints are bound to nets that were made before. -/
theorem meets_atomizeEndpoint (x : Pattern.Expansion) {nets : Array Net}
    (hnets : ∀ n ∈ nets, n.id ∈ s.modul.nets) {d : DesignEndpoint}
    (hd : d.expression ∈ i.expressions) :
    (discipline r refs).Meets s (atomizeEndpoint i x nets d) fun _ _ => True := by
  refine (Atomize.meets_logged (AtomizeInput.ensures_expression hi hd)).bind
    fun found s₁ h₁ hfound => ?_
  cases found with
  | none => exact meets_pure trivial
  | some e =>
      have he : e.span ∈ r := hfound e rfl
      refine (Atomize.meets_logged (Pattern.ensures_expandEndpoint (o := i.options e false) he
        e.raw)).bind fun found s₂ h₂ _ => ?_
      split
      · exact meets_pure trivial
      refine (Atomize.meets_logged (Axis.ensures_bindOrPair _ _ he)).bind fun found s₃ h₃ _ => ?_
      split
      · exact meets_pure trivial
      refine Discipline.Meets.bind (Q := fun _ _ => True) (meets_forIn fun q _ s₄ h₄ => ?_)
        fun _ _ _ _ => meets_pure trivial
      obtain ⟨a, k⟩ := q
      dsimp only
      split
      · next net hnet =>
        refine (meets_connect he _ a ?_).bind fun _ _ _ _ => meets_pure trivial
        exact h₄.nets _ (h₃.nets _ (h₂.nets _ (h₁.nets _ (hnets net (Array.mem_of_getElem? hnet)))))
      · exact meets_pure trivial

theorem meets_atomizeNet {d : DesignNet} (hd : d.Known i.expressions) :
    (discipline r refs).Meets s (atomizeNet i d) fun _ _ => True := by
  have hendpoints : ∀ (x : Pattern.Expansion) (nets : List Net) (s : Atomizing),
      (∀ n ∈ nets, n.id ∈ s.modul.nets) → (discipline r refs).Meets s (do
        for ep in d.endpoints do
          atomizeEndpoint i x nets.toArray ep : Atomize Unit) fun _ _ => True := by
    intro x nets s hnets
    refine Discipline.Meets.bind (Q := fun _ _ => True) (meets_forIn fun ep hep s₁ h₁ => ?_)
      fun _ _ _ _ => meets_pure trivial
    refine (meets_atomizeEndpoint hi x (fun n hn => ?_) (hd.2 ep hep)).bind
      fun _ _ _ _ => meets_pure trivial
    exact h₁.nets _ (hnets n (List.mem_toArray.mp hn))
  refine (Atomize.meets_logged (AtomizeInput.ensures_expand hi hd.1 _)).bind
    fun found s₁ _ hfound => ?_
  cases found with
  | none => exact meets_pure trivial
  | some p =>
      obtain ⟨e, x⟩ := p
      refine Discipline.Meets.bind (meets_mapM (D := discipline r refs)
        (Q := fun n s' => n.id ∈ s'.modul.nets ∧ n.name ∈ s'.nets)
        (fun n s₁ s₂ h hn => ⟨h.nets _ hn.1, h.names _ hn.2⟩)
        fun a _ s₂ _ => meets_addNet _ (hfound _ rfl) x a) fun nets s₂ _ hnets => ?_
      have hnames : ∀ name ∈ nets.map (·.name), name ∈ s₂.nets := by
        intro name hname
        obtain ⟨n, hn, rfl⟩ := List.mem_map.mp hname
        exact (hnets n hn).2
      split
      · exact Discipline.Meets.bind (meets_modify (Q := fun _ s' => ∀ n ∈ nets,
          n.id ∈ s'.modul.nets) (fun hs => hs.withPorts hnames) { Atomizing.Grows.refl s₂ with }
          fun n hn => (hnets n hn).1) fun _ s₃ _ h₃ => hendpoints x nets s₃ h₃
      · exact hendpoints x nets s₂ fun n hn => (hnets n hn).1

/-! ## Default bindings -/

/-- The net of a default binding is one of the module. -/
theorem meets_defaultNet {b : DesignBinding} (hb : b.Known r i.expressions) :
    (discipline r refs).Meets s (defaultNet i b) fun found s' =>
      ∀ n ∈ found, n.id ∈ s'.modul.nets := by
  have hnone : ∀ s' : Atomizing, ∀ n ∈ (none : Option Net), n.id ∈ s'.modul.nets := by
    intro s' n hn
    cases hn
  refine (Atomize.meets_logged (AtomizeInput.ensures_expand hi hb.1 _)).bind
    fun found s₁ _ hfound => ?_
  cases found with
  | none => exact meets_pure (hnone _)
  | some p =>
      obtain ⟨e, x⟩ := p
      dsimp only
      split
      · refine meets_of_inv fun hs => meets_get ?_
        split
        · next net hnet =>
          refine meets_pure fun n hn => ?_
          cases hn
          exact hs.net_named _ net hnet
        · exact (Atomize.meets_report (hfound _ rfl)
            (by simp [AtomizeProblem.at_, Diagnostic.error]) (by simp)).bind
            fun _ _ _ _ => meets_pure (hnone _)
      · exact (Atomize.meets_report (hfound _ rfl) (by simp [AtomizeProblem.at_, Diagnostic.error])
          (by simp)).bind fun _ _ _ _ => meets_pure (hnone _)

theorem meets_resolveBindings (definition : Ident) (bs : List DesignBinding) :
    (∀ b ∈ bs, b.Known r i.expressions) → ∀ {s : Atomizing},
      (discipline r refs).Meets s (resolveBindings i definition bs) fun ds s' =>
        ∀ d ∈ ds, d.net.id ∈ s'.modul.nets ∧ d.span ∈ r := by
  induction bs with
  | nil =>
      intro _ s
      exact meets_pure (by simp)
  | cons b bs ih =>
      intro hbs s
      obtain ⟨hb, hbs⟩ := List.forall_mem_cons.mp hbs
      refine (meets_defaultNet hi hb).bind fun found s₁ _ hfound => ?_
      refine (ih hbs).bind fun more s₂ h₂ hmore => meets_pure ?_
      refine List.forall_mem_append.mpr ⟨fun d hd => ?_, hmore⟩
      obtain ⟨n, hn, rfl⟩ := Option.map_eq_some_iff.mp (Option.mem_toList.mp hd)
      exact ⟨h₂.nets _ (hfound n hn), hb.2⟩

omit hi in
theorem meets_applyDefault {inst : Instance} (hinst : inst.id ∈ s.modul.instances)
    {d : ResolvedDefault} (hd : d.net.id ∈ s.modul.nets ∧ d.span ∈ r) :
    (discipline r refs).Meets s (applyDefault inst d) fun _ _ => True := by
  refine meets_of_inv fun hs => meets_get ?_
  split
  · next hfree => exact meets_bindPort _ _ hfree hd.2 hd.1 hinst
  · next b hb =>
    split
    · exact Atomize.meets_report (hs.bound _ b hb) (List.forall_mem_singleton.mpr hd.2) (by simp)
    · exact meets_pure trivial

theorem meets_applyDefaults : (discipline r refs).Meets s (applyDefaults i) fun _ _ => True := by
  refine Discipline.Meets.bind (meets_mapM (D := discipline r refs)
    (Q := fun ds s' => ∀ d ∈ ds, d.net.id ∈ s'.modul.nets ∧ d.span ∈ r)
    (fun ds s₁ s₂ h hds d hd => ⟨h.nets _ (hds d hd).1, (hds d hd).2⟩)
    fun d hd s₁ _ => meets_resolveBindings hi _ _ (hi.decl.bindings d hd))
    fun resolved s₁ _ hresolved => ?_
  refine meets_of_inv fun hs => meets_get ?_
  refine Discipline.Meets.bind (Q := fun _ _ => True) (meets_forIn fun inst hinst s₂ h₂ => ?_)
    fun _ _ _ _ => meets_pure trivial
  refine Discipline.Meets.bind (Q := fun _ _ => True) (meets_forIn fun d hd s₃ h₃ => ?_)
    fun _ _ _ _ => meets_pure trivial
  obtain ⟨ds, hds, hd⟩ := List.mem_flatten.mp hd
  split
  · refine (meets_applyDefault ?_ ⟨?_, (hresolved ds hds d hd).2⟩).bind
      fun _ _ _ _ => meets_pure trivial
    · exact h₃.instances _ (h₂.instances _ (hs.made inst (List.mem_reverse.mp hinst)))
    · exact h₃.nets _ (h₂.nets _ (hresolved ds hds d hd).1)
  · exact meets_pure trivial

/-! ## Modules -/

theorem meets_atomizeAll : (discipline r refs).Meets s (atomizeAll i) fun _ _ => True := by
  refine (meets_atomizeName hi).bind fun _ s₁ _ _ => ?_
  refine Discipline.Meets.bind (Q := fun _ _ => True) (meets_forIn fun d hd s₂ _ =>
    (meets_atomizeInstance hi (hi.decl.instances d hd)).bind fun _ _ _ _ => meets_pure trivial)
    fun _ s₂ _ _ => ?_
  refine Discipline.Meets.bind (Q := fun _ _ => True) (meets_forIn fun d hd s₃ _ =>
    (meets_atomizeNet hi (hi.decl.nets d hd)).bind fun _ _ _ _ => meets_pure trivial)
    fun _ s₃ _ _ => ?_
  exact meets_applyDefaults hi

end Declarations

/-- A module whose parts are in the region and refer to what they may refer to.  Its endpoints stay
inside it, none of its ports is bound to two nets, and each of its own ports is the name of a
net. -/
structure Module.Placed (r : Region) (refs : Ref → Prop) (m : Module) : Prop where
  span : m.span ∈ r
  net : ∀ (k : Ident) (n : Net), m.nets[k]? = some n → n.span ∈ r
  inst : ∀ (k : Ident) (i : Instance), m.instances[k]? = some i → i.span ∈ r ∧ refs i.ref
  endpoint : ∀ (k : Ident) (e : Endpoint), m.endpoints[k]? = some e →
    e.span ∈ r ∧ e.net ∈ m.nets ∧ e.inst ∈ m.instances
  one_net : ∀ (k₁ k₂ : Ident) (e₁ e₂ : Endpoint), m.endpoints[k₁]? = some e₁ →
    m.endpoints[k₂]? = some e₂ → e₁.inst = e₂.inst → e₁.port = e₂.port → e₁.net = e₂.net
  port_net : m.nets.size < idLimit → ∀ port ∈ m.portList, ∃ n ∈ m.nets.items, n.name = port

/-- A state in order has a module whose spans are in the region. -/
theorem Atomizing.Sane.placed {r : Region} {refs : Ref → Prop} {s : Atomizing}
    (h : s.Sane r refs) : s.modul.Placed r refs := by
  refine ⟨h.span, h.net, h.inst, fun k e he => ?_, fun k₁ k₂ e₁ e₂ h₁ h₂ hinst hport => ?_,
    fun hsize port hport => ?_⟩
  · obtain ⟨hspan, hnet, hinst, _⟩ := h.endpoint k e he
    exact ⟨hspan, hnet, hinst⟩
  · -- both are at the net that the port is bound to
    obtain ⟨_, _, _, b₁, hb₁, hnet₁⟩ := h.endpoint k₁ e₁ h₁
    obtain ⟨_, _, _, b₂, hb₂, hnet₂⟩ := h.endpoint k₂ e₂ h₂
    rw [hinst, hport, hb₂] at hb₁
    rw [← hnet₁, ← hnet₂, Option.some.inj hb₁]
  · have hmade := h.ports port hport
    obtain ⟨hname, hget⟩ := (h.kept hsize).named port _
      (Std.HashMap.getElem?_eq_some_getElem hmade)
    exact ⟨_, IdMap.mem_items.mpr ⟨_, hget⟩, hname⟩

section Modules

variable {r : Region} {refs : Ref → Prop}

/-- A closed module is atomized into one whose spans are in the region. -/
theorem ensures_atomizeModule {i : AtomizeInput} (hi : i.Closed r refs) (alloc : Allocator) :
    (atomizeModule i alloc).Ensures (Proper r) fun p =>
      p.1.id = i.decl.id ∧ p.1.Placed r refs := by
  have hempty : (Atomizing.start i alloc).Sane r refs := by
    refine ⟨hi.decl.span, ?_, ?_, ?_, ?_, ?_, ?_, ?_, ?_, fun _ => ⟨⟨_, Numbered.empty _ _⟩, ?_⟩⟩
    all_goals simp [Atomizing.start, Module.portList]
  obtain ⟨hreports, hsane, hgrows, _⟩ := meets_atomizeAll hi hempty
  exact ⟨hreports.bind fun _ => Logged.reports_pure _, hgrows.id, hsane.placed⟩

theorem ensures_atomizeModules {design : Design}
    (hexpressions : ∀ (k : Ident) (e : DesignExpression), design.expressions[k]? = some e →
      e.span ∈ r) (maxAtoms : Int) (modules : List DesignModule) :
    (∀ m ∈ modules, m.Closed r refs design.expressions) → ∀ alloc : Allocator,
      (atomizeModules design maxAtoms alloc modules).Ensures (Proper r) fun p =>
        p.1.map (·.id) = modules.map (·.id) ∧ ∀ m ∈ p.1, m.Placed r refs := by
  induction modules with
  | nil =>
      intro _ alloc
      exact ensures_pure ⟨rfl, by simp⟩
  | cons m modules ih =>
      intro hmodules alloc
      obtain ⟨hm, hmodules⟩ := List.forall_mem_cons.mp hmodules
      refine (ensures_atomizeModule (i := ⟨design.expressions, m, maxAtoms⟩) ⟨hexpressions, hm⟩
        alloc).bind fun p hp => (ih hmodules p.2).bind fun q hq => ensures_pure ⟨?_, ?_⟩
      · rw [List.map_cons, List.map_cons, hp.1, hq.1]
      · exact List.forall_mem_cons.mpr ⟨hp.2, hq.2⟩

/-! ## Programs -/

/-- No violation is an internal error. -/
theorem Violation.code_ne_internalError (v : Violation) : v.code ≠ .internalError := by
  cases v <;> simp only [code] <;> decide

/-- What is found in a module speaks of places of the module. -/
theorem Module.Finds.proper {p : Program} {m : Module} {f : Finding} (h : m.Finds p f)
    (hm : m.Placed r refs) : (f.1.at_ f.2).Proper r := by
  have hnet : ∀ n ∈ m.nets.items, n.span ∈ r := by
    intro n hn
    obtain ⟨k, hk⟩ := IdMap.mem_items.mp hn
    exact hm.net k n hk
  have hinst : ∀ i ∈ m.instances.items, i.span ∈ r := by
    intro i hi
    obtain ⟨k, hk⟩ := IdMap.mem_items.mp hi
    exact (hm.inst k i hk).1
  have hendpoint : ∀ e ∈ m.endpoints.items, e.span ∈ r := by
    intro e he
    obtain ⟨k, hk⟩ := IdMap.mem_items.mp he
    exact (hm.endpoint k e hk).1
  have hplain : ∀ {v : Violation} {span : Span}, span ∈ r → v.notes = [] → (v.at_ span).Proper r :=
    fun hspan hnotes => Diagnostic.proper_error hspan (by simp [hnotes])
      (Violation.code_ne_internalError _)
  cases h with
  | duplicateNet hn hfirst =>
      exact Diagnostic.proper_error (hnet _ hn) (List.forall_mem_singleton.mpr (hnet _ hfirst))
        (Violation.code_ne_internalError _)
  | duplicateInstance hi hfirst =>
      exact Diagnostic.proper_error (hinst _ hi) (List.forall_mem_singleton.mpr (hinst _ hfirst))
        (Violation.code_ne_internalError _)
  | portBoundTwice he hfirst =>
      exact Diagnostic.proper_error (hendpoint _ he)
        (List.forall_mem_singleton.mpr (hendpoint _ hfirst)) (Violation.code_ne_internalError _)
  | unknownDefinition hi => exact hplain (hinst _ hi) rfl
  | danglingNet he => exact hplain (hendpoint _ he) rfl
  | danglingInstance he => exact hplain (hendpoint _ he) rfl
  | undeclaredPort he => exact hplain (hendpoint _ he) rfl
  | duplicatePort port => exact hplain hm.span rfl
  | unbackedPort => exact hplain hm.span rfl

/-- What the verifier reports is at places of the program. -/
theorem Program.reports_verify {p : Program}
    (hp : ∀ (k : Ident) (m : Module), p.modules[k]? = some m → m.Placed r refs) :
    p.verify.Reports (Proper r) := by
  intro d hd
  obtain ⟨f, hf, rfl⟩ := List.mem_map.mp hd
  cases finds_of_mem_violations hf with
  | missingTop =>
      exact Diagnostic.proper_error r.nowhere (by simp [Violation.notes])
        (Violation.code_ne_internalError _)
  | inModule hm hf => exact hf.proper (hp _ _ hm)
  | recursive hm cycle =>
      exact Diagnostic.proper_error (hp _ _ hm).span (by simp [Violation.notes])
        (Violation.code_ne_internalError _)

end Modules

namespace Design

variable {r : Region} {design : Design} (hdesign : design.Closed r) (alloc : Allocator)
  (maxAtoms : Int)

include hdesign

theorem Closed.ensures_atomizeModules : (Netlist.atomizeModules design maxAtoms alloc
    design.modules).Ensures (Proper r) fun p => p.1.map (·.id) = design.modules.map (·.id) ∧
      ∀ m ∈ p.1, m.Placed r (Declares design.modules design.devices) :=
  Netlist.ensures_atomizeModules hdesign.expressions maxAtoms design.modules hdesign.modules alloc

theorem Closed.placed_programOf : ∀ (k : Ident) (m : Module),
    (design.programOf (Netlist.atomizeModules design maxAtoms alloc
      design.modules).value.1).modules[k]? = some m →
    m.Placed r (Declares design.modules design.devices) := by
  intro k m hm
  exact (Closed.ensures_atomizeModules hdesign alloc maxAtoms).result.2 m
    (IdMap.mem_of_getElem?_ofItems hm).1

/-- Atomizing a closed design reports no internal error, and only at its places. -/
theorem Closed.reports_atomize : (design.atomize alloc maxAtoms).Reports (Proper r) := by
  refine Logged.Reports.bind (Closed.ensures_atomizeModules hdesign alloc maxAtoms).reports
    fun _ => ?_
  split
  · exact Logged.reports_pure _
  · refine (Program.reports_verify (Closed.placed_programOf hdesign alloc maxAtoms)).bind
      fun sound => ?_
    split
    · exact Logged.reports_pure _
    · exact Logged.reports_pure _

end Design

end Netlist
