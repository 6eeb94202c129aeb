import Netlist.Atomize.Module
import Netlist.Proofs.Ident

/-!
# The steps of atomizing a module

When nothing is wrong, a module is made by a few kinds of steps (`Step`): it gets its
name, an instance, a net or its ports, an endpoint atom is connected, or a default binding
is applied.  A run is a trace of such steps.  The tables that are kept on the way agree
with the module (`Consistent`), and what was made stays (`Extends`), as long as the
identifiers do not wrap around (`Module.Small`).  What is bound at the end is then read off
the events of the trace.
-/

namespace Netlist

/-- A module that holds less things of each kind than there are numbers for them. -/
structure Module.Small (m : Module) : Prop where
  instances : m.instances.size < idLimit
  nets : m.nets.size < idLimit
  endpoints : m.endpoints.size < idLimit

namespace Atomizing

/-! ## Steps -/

/-- What happens to a module in the making. -/
inductive Event where
  /-- The module gets its name. -/
  | name (name : String)
  /-- An instance is made. -/
  | inst (inst : Instance)
  /-- A net is made. -/
  | net (net : Net)
  | ports (names : List String)
  /-- An endpoint atom names a port of an instance for a net, with or without a marker. -/
  | connect (inst port : String) (net : Net) (isSuppressed : Bool)
  /-- A default binding meets an instance. -/
  | applyDefault (inst : Instance) (d : ResolvedDefault)

/-- The state with another instance. -/
def withInstance (s : Atomizing) (inst : Instance) : Atomizing :=
  { s with
    alloc := (s.alloc.next .instance_).2
    modul := { s.modul with instances := s.modul.instances.insert inst.id inst }
    made := inst :: s.made
    instances := s.instances.insertIfNew inst.name inst }

/-- The state with another net. -/
def withNet (s : Atomizing) (net : Net) : Atomizing :=
  { s with
    alloc := (s.alloc.next .net).2
    modul := { s.modul with nets := s.modul.nets.insert net.id net }
    nets := s.nets.insertIfNew net.name net }

/-- The state with another endpoint. -/
def withEndpoint (s : Atomizing) (b : Bound) : Atomizing :=
  { s with
    alloc := (s.alloc.next .endpoint).2
    modul := { s.modul with endpoints := s.modul.endpoints.insert b.endpoint.id b.endpoint }
    bound := s.bound.insert (b.endpoint.inst, b.endpoint.port) b }

/-- A step in which nothing is wrong. -/
inductive Step : Atomizing → Event → Atomizing → Prop
  | name (s : Atomizing) (name : String) :
      Step s (.name name) { s with modul := { s.modul with name := name } }
  | inst (s : Atomizing) (inst : Instance) (hid : inst.id = (s.alloc.next .instance_).1) :
      Step s (.inst inst) (s.withInstance inst)
  | net (s : Atomizing) (net : Net) (hid : net.id = (s.alloc.next .net).1) :
      Step s (.net net) (s.withNet net)
  | ports (s : Atomizing) (names : List String) :
      Step s (.ports names)
        { s with modul := { s.modul with ports := some (s.modul.portList ++ names) } }
  /-- The port is free. -/
  | connect (s : Atomizing) (name : String) (net : Net) {inst : Instance} (b : Bound)
      (hinst : s.instances[name]? = some inst)
      (hfree : s.bound[(b.endpoint.inst, b.endpoint.port)]? = none)
      (hid : b.endpoint.id = (s.alloc.next .endpoint).1) (hb : b.endpoint.inst = inst.id)
      (hnet : b.endpoint.net = net.id) (hdefault : b.endpoint.isDefault = false) :
      Step s (.connect name b.endpoint.port net b.isSuppressed) (s.withEndpoint b)
  /-- The port is bound to the net already. -/
  | again (s : Atomizing) (name port : String) (net : Net) (isSuppressed : Bool)
      {inst : Instance} {b : Bound} (hinst : s.instances[name]? = some inst)
      (hb : s.bound[(inst.id, port)]? = some b) (hsame : b.endpoint.net = net.id) :
      Step s (.connect name port net isSuppressed) s
  /-- The default binding is needed. -/
  | applyDefault (s : Atomizing) (inst : Instance) (d : ResolvedDefault) (b : Bound)
      (hfree : s.bound[(b.endpoint.inst, b.endpoint.port)]? = none)
      (hid : b.endpoint.id = (s.alloc.next .endpoint).1) (hb : b.endpoint.inst = inst.id)
      (hport : b.endpoint.port = d.port) (hnet : b.endpoint.net = d.net.id)
      (hdefault : b.endpoint.isDefault = true) (hmark : b.isSuppressed = false) :
      Step s (.applyDefault inst d) (s.withEndpoint b)
  /-- The port is bound already. -/
  | overridden (s : Atomizing) (inst : Instance) (d : ResolvedDefault) {b : Bound}
      (hb : s.bound[(inst.id, d.port)]? = some b) : Step s (.applyDefault inst d) s

/-- A run in which nothing is wrong. -/
inductive Trace : Atomizing → List Event → Atomizing → Prop
  | nil (s : Atomizing) : Trace s [] s
  | cons {s s₁ s₂ : Atomizing} {e : Event} {es : List Event} :
      Step s e s₁ → Trace s₁ es s₂ → Trace s (e :: es) s₂

variable {s s' : Atomizing}

theorem Step.trace {e : Event} (h : Step s e s') : Trace s [e] s' :=
  .cons h (.nil s')

theorem Trace.append {s s₁ s₂ : Atomizing} {es fs : List Event} (h : Trace s es s₁)
    (h' : Trace s₁ fs s₂) : Trace s (es ++ fs) s₂ := by
  induction h with
  | nil => exact h'
  | cons hstep _ ih => exact .cons hstep (ih h')

/-! ## The size of a module -/

/-- A module only grows. -/
theorem Step.small {e : Event} (h : Step s e s') (hs : s'.modul.Small) :
    s.modul.Small := by
  cases h with
  | name => exact ⟨hs.instances, hs.nets, hs.endpoints⟩
  | inst => exact ⟨Nat.lt_of_le_of_lt Std.ExtTreeMap.size_le_size_insert hs.instances, hs.nets,
      hs.endpoints⟩
  | net => exact ⟨hs.instances, Nat.lt_of_le_of_lt Std.ExtTreeMap.size_le_size_insert hs.nets,
      hs.endpoints⟩
  | ports => exact ⟨hs.instances, hs.nets, hs.endpoints⟩
  | connect => exact ⟨hs.instances, hs.nets,
      Nat.lt_of_le_of_lt Std.ExtTreeMap.size_le_size_insert hs.endpoints⟩
  | again => exact hs
  | applyDefault => exact ⟨hs.instances, hs.nets,
      Nat.lt_of_le_of_lt Std.ExtTreeMap.size_le_size_insert hs.endpoints⟩
  | overridden => exact hs

theorem Trace.small {es : List Event} (h : Trace s es s')
    (hs : s'.modul.Small) : s.modul.Small := by
  induction h with
  | nil => exact hs
  | cons hstep _ ih => exact hstep.small (ih hs)

/-! ## Tables and modules -/

/-- The tables agree with the module. -/
structure Consistent (s : Atomizing) : Prop where
  /-- Instances have identifiers that were given out. -/
  instances_numbered :
    ∃ start, Numbered .instance_ start (s.alloc.lastOf .instance_) s.modul.instances
  nets_numbered : ∃ start, Numbered .net start (s.alloc.lastOf .net) s.modul.nets
  endpoints_numbered :
    ∃ start, Numbered .endpoint start (s.alloc.lastOf .endpoint) s.modul.endpoints
  /-- The instances of the module were made and have their own identifiers. -/
  instance_made : ∀ (k : Ident) (inst : Instance), s.modul.instances[k]? = some inst →
    inst.id = k ∧ inst ∈ s.made
  /-- What was made is in the module, and its name is known. -/
  made_instance : ∀ inst ∈ s.made, s.modul.instances[inst.id]? = some inst ∧
    inst.name ∈ s.instances
  /-- Names lead to instances of the module. -/
  instance_named : ∀ (name : String) (inst : Instance), s.instances[name]? = some inst →
    inst.name = name ∧ s.modul.instances[inst.id]? = some inst
  /-- Names lead to nets of the module. -/
  net_named : ∀ (name : String) (net : Net), s.nets[name]? = some net →
    net.name = name ∧ s.modul.nets[net.id]? = some net
  bound_endpoint : ∀ (k : Ident) (port : String) (b : Bound), s.bound[(k, port)]? = some b →
    b.endpoint.inst = k ∧ b.endpoint.port = port ∧
      s.modul.endpoints[b.endpoint.id]? = some b.endpoint
  /-- An endpoint is what its port is bound by. -/
  endpoint_bound : ∀ (id : Ident) (e : Endpoint), s.modul.endpoints[id]? = some e →
    e.id = id ∧ ∃ b, s.bound[(e.inst, e.port)]? = some b ∧ b.endpoint = e

/-- A state keeps all that another one has. -/
structure Extends (s s' : Atomizing) : Prop where
  instances : ∀ (k : Ident) (inst : Instance), s.modul.instances[k]? = some inst →
    s'.modul.instances[k]? = some inst
  nets : ∀ (k : Ident) (net : Net), s.modul.nets[k]? = some net → s'.modul.nets[k]? = some net
  instance_names : ∀ (name : String) (inst : Instance), s.instances[name]? = some inst →
    s'.instances[name]? = some inst
  net_names : ∀ (name : String) (net : Net), s.nets[name]? = some net → s'.nets[name]? = some net
  bound : ∀ (key : Ident × String) (b : Bound), s.bound[key]? = some b → s'.bound[key]? = some b

theorem Extends.refl (s : Atomizing) : Extends s s :=
  ⟨fun _ _ h => h, fun _ _ h => h, fun _ _ h => h, fun _ _ h => h, fun _ _ h => h⟩

theorem Extends.trans {s₁ s₂ s₃ : Atomizing} (h : Extends s₁ s₂) (h' : Extends s₂ s₃) :
    Extends s₁ s₃ :=
  ⟨fun k i hk => h'.instances k i (h.instances k i hk), fun k n hk => h'.nets k n (h.nets k n hk),
    fun k i hk => h'.instance_names k i (h.instance_names k i hk),
    fun k n hk => h'.net_names k n (h.net_names k n hk),
    fun k b hk => h'.bound k b (h.bound k b hk)⟩

/-! ## What a step keeps -/

/-- A name that is known keeps its thing. -/
theorem getElem?_insertIfNew_of_eq_some {α : Type} {m : Std.HashMap String α}
    {new name : String} {a b : α} (h : m[name]? = some a) :
    (m.insertIfNew new b)[name]? = some a := by
  rw [Std.HashMap.getElem?_insertIfNew, if_neg, h]
  rintro ⟨heq, hnew⟩
  rw [beq_iff_eq.mp heq, Std.HashMap.mem_iff_isSome_getElem?, h] at hnew
  exact hnew rfl

theorem of_getElem?_insertIfNew {α : Type} {m : Std.HashMap String α} {new name : String}
    {a b : α} (h : (m.insertIfNew new b)[name]? = some a) :
    (new = name ∧ b = a) ∨ m[name]? = some a := by
  rw [Std.HashMap.getElem?_insertIfNew] at h
  split at h
  · rename_i hnew
    exact Or.inl ⟨beq_iff_eq.mp hnew.1, Option.some.inj h⟩
  · exact Or.inr h

section

variable {s : Atomizing} (hs : s.Consistent) (hsmall : s.modul.Small)

include hs hsmall

theorem next_instance_not_mem : (s.alloc.next .instance_).1 ∉ s.modul.instances := by
  obtain ⟨_, hn⟩ := hs.instances_numbered
  exact hn.not_mem hsmall.instances

theorem next_net_not_mem : (s.alloc.next .net).1 ∉ s.modul.nets := by
  obtain ⟨_, hn⟩ := hs.nets_numbered
  exact hn.not_mem hsmall.nets

theorem next_endpoint_not_mem : (s.alloc.next .endpoint).1 ∉ s.modul.endpoints := by
  obtain ⟨_, hn⟩ := hs.endpoints_numbered
  exact hn.not_mem hsmall.endpoints

theorem extends_withInstance {inst : Instance} (hid : inst.id = (s.alloc.next .instance_).1) :
    Extends s (s.withInstance inst) := by
  refine ⟨fun k i hk => ?_, fun _ _ h => h, fun name i hn => ?_, fun _ _ h => h, fun _ _ h => h⟩
  · exact IdMap.getElem?_insert_of_not_mem (hid ▸ next_instance_not_mem hs hsmall) hk
  · exact getElem?_insertIfNew_of_eq_some hn

theorem consistent_withInstance {inst : Instance}
    (hid : inst.id = (s.alloc.next .instance_).1) : (s.withInstance inst).Consistent := by
  have hext := extends_withInstance hs hsmall hid
  obtain ⟨start, hn⟩ := hs.instances_numbered
  refine ⟨⟨start, ?_⟩, ?_, ?_, fun k i hk => ?_, fun i hi => ?_, fun name i hi => ?_,
    hs.net_named, hs.bound_endpoint, hs.endpoint_bound⟩
  · simp only [withInstance, Allocator.lastOf_next_self, hid]
    exact hn.insert hsmall.instances inst
  · simpa [withInstance, IdKind.net, IdKind.instance_] using hs.nets_numbered
  · simpa [withInstance, IdKind.endpoint, IdKind.instance_] using hs.endpoints_numbered
  · rcases IdMap.of_getElem?_insert hk with ⟨rfl, rfl⟩ | hk
    · exact ⟨rfl, List.mem_cons_self ..⟩
    · exact ⟨(hs.instance_made k i hk).1, List.mem_cons_of_mem _ (hs.instance_made k i hk).2⟩
  · rcases List.mem_cons.mp hi with rfl | hi
    · exact ⟨Std.ExtTreeMap.getElem?_insert_self, by simp [withInstance]⟩
    · obtain ⟨hget, hname⟩ := hs.made_instance i hi
      exact ⟨hext.instances _ _ hget, by simp [withInstance, hname]⟩
  · rcases of_getElem?_insertIfNew hi with ⟨rfl, rfl⟩ | hi
    · exact ⟨rfl, Std.ExtTreeMap.getElem?_insert_self⟩
    · obtain ⟨hname, hget⟩ := hs.instance_named name i hi
      exact ⟨hname, hext.instances _ _ hget⟩

theorem extends_withNet {net : Net} (hid : net.id = (s.alloc.next .net).1) :
    Extends s (s.withNet net) := by
  refine ⟨fun _ _ h => h, fun k n hk => ?_, fun _ _ h => h, fun name n hn => ?_, fun _ _ h => h⟩
  · exact IdMap.getElem?_insert_of_not_mem (hid ▸ next_net_not_mem hs hsmall) hk
  · exact getElem?_insertIfNew_of_eq_some hn

theorem consistent_withNet {net : Net} (hid : net.id = (s.alloc.next .net).1) :
    (s.withNet net).Consistent := by
  have hext := extends_withNet hs hsmall hid
  obtain ⟨start, hn⟩ := hs.nets_numbered
  refine ⟨?_, ⟨start, ?_⟩, ?_, hs.instance_made, hs.made_instance, hs.instance_named,
    fun name n hname => ?_, hs.bound_endpoint, hs.endpoint_bound⟩
  · simpa [withNet, IdKind.net, IdKind.instance_] using hs.instances_numbered
  · simp only [withNet, Allocator.lastOf_next_self, hid]
    exact hn.insert hsmall.nets net
  · simpa [withNet, IdKind.net, IdKind.endpoint] using hs.endpoints_numbered
  · rcases of_getElem?_insertIfNew hname with ⟨rfl, rfl⟩ | hname
    · exact ⟨rfl, Std.ExtTreeMap.getElem?_insert_self⟩
    · obtain ⟨hn', hget⟩ := hs.net_named name n hname
      exact ⟨hn', hext.nets _ _ hget⟩

omit hs hsmall in
theorem extends_withEndpoint {b : Bound}
    (hfree : s.bound[(b.endpoint.inst, b.endpoint.port)]? = none) :
    Extends s (s.withEndpoint b) := by
  refine ⟨fun _ _ h => h, fun _ _ h => h, fun _ _ h => h, fun _ _ h => h, fun key b' hb => ?_⟩
  rw [withEndpoint, Std.HashMap.getElem?_insert, if_neg, hb]
  intro heq
  rw [beq_iff_eq.mp heq, hb] at hfree
  cases hfree

theorem consistent_withEndpoint {b : Bound}
    (hfree : s.bound[(b.endpoint.inst, b.endpoint.port)]? = none)
    (hid : b.endpoint.id = (s.alloc.next .endpoint).1) : (s.withEndpoint b).Consistent := by
  have hext := extends_withEndpoint hfree
  have hnew := next_endpoint_not_mem hs hsmall
  obtain ⟨start, hn⟩ := hs.endpoints_numbered
  refine ⟨?_, ?_, ⟨start, ?_⟩, hs.instance_made, hs.made_instance, hs.instance_named,
    hs.net_named, fun k port b' hb => ?_, fun id e he => ?_⟩
  · simpa [withEndpoint, IdKind.endpoint, IdKind.instance_] using hs.instances_numbered
  · simpa [withEndpoint, IdKind.endpoint, IdKind.net] using hs.nets_numbered
  · simp only [withEndpoint, Allocator.lastOf_next_self, hid]
    exact hn.insert hsmall.endpoints b.endpoint
  · simp only [withEndpoint, Std.HashMap.getElem?_insert] at hb
    split at hb
    · rename_i heq
      cases hb
      obtain ⟨rfl, rfl⟩ := Prod.mk.inj (beq_iff_eq.mp heq)
      exact ⟨rfl, rfl, Std.ExtTreeMap.getElem?_insert_self⟩
    · obtain ⟨hinst, hport, hget⟩ := hs.bound_endpoint k port b' hb
      exact ⟨hinst, hport, IdMap.getElem?_insert_of_not_mem (hid ▸ hnew) hget⟩
  · rcases IdMap.of_getElem?_insert he with ⟨rfl, rfl⟩ | he
    · exact ⟨rfl, b, by simp [withEndpoint], rfl⟩
    · obtain ⟨hid', b', hb, heq⟩ := hs.endpoint_bound id e he
      exact ⟨hid', b', hext.bound _ _ hb, heq⟩

end

variable {s s' : Atomizing} {key : Ident × String} {es : List Event} {e : Event} {b : Bound}

theorem Step.extends (h : Step s e s') (hs : s.Consistent)
    (hsmall : s.modul.Small) : Extends s s' := by
  cases h with
  | name => exact ⟨fun _ _ h => h, fun _ _ h => h, fun _ _ h => h, fun _ _ h => h, fun _ _ h => h⟩
  | inst inst hid => exact extends_withInstance hs hsmall hid
  | net net hid => exact extends_withNet hs hsmall hid
  | ports => exact ⟨fun _ _ h => h, fun _ _ h => h, fun _ _ h => h, fun _ _ h => h, fun _ _ h => h⟩
  | connect _ _ b _ hfree => exact extends_withEndpoint hfree
  | again => exact .refl s
  | applyDefault _ _ b hfree => exact extends_withEndpoint hfree
  | overridden => exact .refl s

theorem Step.consistent (h : Step s e s') (hs : s.Consistent)
    (hsmall : s.modul.Small) : s'.Consistent := by
  cases h with
  | name => exact ⟨hs.1, hs.2, hs.3, hs.4, hs.5, hs.6, hs.7, hs.8, hs.9⟩
  | inst inst hid => exact consistent_withInstance hs hsmall hid
  | net net hid => exact consistent_withNet hs hsmall hid
  | ports => exact ⟨hs.1, hs.2, hs.3, hs.4, hs.5, hs.6, hs.7, hs.8, hs.9⟩
  | connect _ _ b _ hfree hid => exact consistent_withEndpoint hs hsmall hfree hid
  | again => exact hs
  | applyDefault _ _ b hfree hid => exact consistent_withEndpoint hs hsmall hfree hid
  | overridden => exact hs

/-- A binding stays, however many identifiers were given out. -/
theorem Step.bound_kept (h : Step s e s')
    (hb : s.bound[key]? = some b) : s'.bound[key]? = some b := by
  cases h with
  | name => exact hb
  | inst => exact hb
  | net => exact hb
  | ports => exact hb
  | connect _ _ b _ hfree => exact (extends_withEndpoint hfree).bound key _ hb
  | again => exact hb
  | applyDefault _ _ b hfree => exact (extends_withEndpoint hfree).bound key _ hb
  | overridden => exact hb

theorem Trace.bound_kept (h : Trace s es s') (hb : s.bound[key]? = some b) :
    s'.bound[key]? = some b := by
  induction h with
  | nil => exact hb
  | cons hstep _ ih => exact ih (hstep.bound_kept hb)

/-- A run keeps the tables in agreement with the module, and keeps what was made. -/
theorem Trace.keeps (h : Trace s es s') (hs : s.Consistent)
    (hsmall : s'.modul.Small) : s'.Consistent ∧ Extends s s' := by
  induction h with
  | nil s => exact ⟨hs, .refl s⟩
  | cons hstep hrest ih =>
      have hsmall₁ := hstep.small (hrest.small hsmall)
      obtain ⟨hc, hext⟩ := ih (hstep.consistent hs hsmall₁) hsmall
      exact ⟨hc, (hstep.extends hs hsmall₁).trans hext⟩

/-! ## What the events say about the result -/

/-- A net that was made is in the module. -/
theorem Trace.net_mem (h : Trace s es s')
    (hs : s.Consistent) (hsmall : s'.modul.Small) {net : Net} (hmem : .net net ∈ es) :
    s'.modul.nets[net.id]? = some net := by
  induction h with
  | nil => cases hmem
  | cons hstep hrest ih =>
      have hsmall₁ := hstep.small (hrest.small hsmall)
      have hs₁ := hstep.consistent hs hsmall₁
      rcases List.mem_cons.mp hmem with rfl | hmem
      · cases hstep with
        | net _ _ => exact (hrest.keeps hs₁ hsmall).2.nets _ _ Std.ExtTreeMap.getElem?_insert_self
      · exact ih hs₁ hsmall hmem

/-- A port that an endpoint atom names is bound to the net that it is named for. -/
theorem Trace.connected (h : Trace s es s')
    (hs : s.Consistent) (hsmall : s'.modul.Small) {name port : String} {net : Net}
    {isSuppressed : Bool} (hmem : .connect name port net isSuppressed ∈ es) :
    ∃ inst b, s'.instances[name]? = some inst ∧ s'.bound[(inst.id, port)]? = some b ∧
      b.endpoint.net = net.id := by
  induction h with
  | nil => cases hmem
  | cons hstep hrest ih =>
      have hsmall₁ := hstep.small (hrest.small hsmall)
      have hs₁ := hstep.consistent hs hsmall₁
      rcases List.mem_cons.mp hmem with rfl | hmem
      · have hext := (hrest.keeps hs₁ hsmall).2
        cases hstep with
        | connect _ _ b hinst _ _ hb hnet _ =>
            refine ⟨_, b, hext.instance_names _ _ hinst, hext.bound _ _ ?_, hnet⟩
            rw [← hb]
            exact Std.HashMap.getElem?_insert_self
        | again _ _ _ _ hinst hb hsame =>
            exact ⟨_, _, hext.instance_names _ _ hinst, hext.bound _ _ hb, hsame⟩
      · exact ih hs₁ hsmall hmem

/-- Whether an event is the application of a default binding. -/
def Event.IsDefault : Event → Prop
  | .applyDefault _ _ => True
  | _ => False

/-- The event that a new binding comes from. -/
theorem Step.bound_origin (h : Step s e s') (hno : ¬ e.IsDefault) (hb : s'.bound[key]? = some b) :
    s.bound[key]? = some b ∨ (b.endpoint.isDefault = false ∧ ∃ name inst net,
      e = .connect name key.2 net b.isSuppressed ∧ s.instances[name]? = some inst ∧
        inst.id = key.1) := by
  cases h with
  | name => exact Or.inl hb
  | inst => exact Or.inl hb
  | net => exact Or.inl hb
  | ports => exact Or.inl hb
  | connect name net b' hinst _ _ hb' _ hdefault =>
      simp only [withEndpoint, Std.HashMap.getElem?_insert] at hb
      split at hb
      · rename_i heq
        cases hb
        obtain rfl := beq_iff_eq.mp heq
        exact Or.inr ⟨hdefault, name, _, net, rfl, hinst, hb'.symm⟩
      · exact Or.inl hb
  | again => exact Or.inl hb
  | applyDefault => exact absurd trivial hno
  | overridden => exact absurd trivial hno

/-- Without default bindings, what is bound in the end was named by an endpoint atom. -/
theorem Trace.bound_origin (h : Trace s es s')
    (hs : s.Consistent) (hsmall : s'.modul.Small) (hno : ∀ e ∈ es, ¬ e.IsDefault)
    (hb : s'.bound[key]? = some b) :
    s.bound[key]? = some b ∨ (b.endpoint.isDefault = false ∧ ∃ name inst net,
      .connect name key.2 net b.isSuppressed ∈ es ∧ s'.instances[name]? = some inst ∧
        inst.id = key.1) := by
  induction h with
  | nil => exact Or.inl hb
  | cons hstep hrest ih =>
      have hsmall₁ := hstep.small (hrest.small hsmall)
      have hs₁ := hstep.consistent hs hsmall₁
      rcases ih hs₁ hsmall (fun e he => hno e (List.mem_cons_of_mem _ he)) hb with
        hb | ⟨hd, name, inst, net, hmem, hinst, hid⟩
      · rcases hstep.bound_origin (hno _ (List.mem_cons_self ..)) hb with
          hb | ⟨hd, name, inst, net, rfl, hinst, hid⟩
        · exact Or.inl hb
        · have hext := (hstep.extends hs hsmall₁).trans (hrest.keeps hs₁ hsmall).2
          exact Or.inr ⟨hd, name, inst, net, List.mem_cons_self .., hext.instance_names _ _ hinst,
            hid⟩
      · exact Or.inr ⟨hd, name, inst, net, List.mem_cons_of_mem _ hmem, hinst, hid⟩

/-- Default bindings at free ports: the first one for a port binds it. -/
theorem Trace.default_bound : ∀ {qs : List (Instance × ResolvedDefault)} {s s' : Atomizing},
    Trace s (qs.map fun q => .applyDefault q.1 q.2) s' → ∀ {key : Ident × String},
      s.bound[key]? = none →
      (s'.bound[key]?).map (fun b => (b.endpoint.net, b.endpoint.isDefault)) =
        (qs.find? fun q => (q.1.id, q.2.port) == key).map fun q => (q.2.net.id, true)
  | [], s, s', h, key, hfree => by
      cases h
      rw [hfree]
      rfl
  | q :: qs, s, s', h, key, hfree => by
      cases h with
      | cons hstep hrest =>
          cases hstep with
          | applyDefault _ _ b _ _ hb hport hnet hdefault =>
              by_cases hkey : (q.1.id, q.2.port) = key
              · have hbound : (s.withEndpoint b).bound[key]? = some b := by
                  simp [withEndpoint, hb, hport, hkey]
                rw [Trace.bound_kept hrest hbound, List.find?_cons_of_pos (by simpa using hkey),
                  Option.map_some, Option.map_some, hnet, hdefault]
              · have hfree₁ : (s.withEndpoint b).bound[key]? = none := by
                  rw [withEndpoint, Std.HashMap.getElem?_insert, hb, hport,
                    if_neg (by simpa using hkey), hfree]
                rw [Trace.default_bound hrest hfree₁, List.find?_cons_of_neg (by simpa using hkey)]
          | overridden _ _ hb =>
              have hkey : (q.1.id, q.2.port) ≠ key := by
                rintro rfl
                rw [hfree] at hb
                cases hb
              rw [Trace.default_bound hrest hfree, List.find?_cons_of_neg (by simpa using hkey)]

end Atomizing

end Netlist
