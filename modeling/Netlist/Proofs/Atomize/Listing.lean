import Netlist.Proofs.Atomize.Design
import Netlist.Proofs.Pattern.Assembly

/-!
# The things of an atomized module

The nets and the instances of a module, in the order of their identifiers, are the atoms of its
declarations, one declaration after another (`Module.ListsDeclared`).

Identifiers are given out in increasing order until their numbers wrap around.  So a step that makes
a net or an instance puts it at the end of the list (`Step.listed`), and what a run makes stands in
the order of its events (`Trace.listed`).  The events are known from the declarations.
-/

namespace Netlist

open Pattern (Expansion Atom)
open Atomizing

/-! ## What is declared -/

/-- Where the name of a thing comes from: nothing is recorded for a literal expression. -/
def Records (e : DesignExpression) (t : Pattern.Expression) (a : Atom) (o : Option Origin) : Prop :=
  (o = none ↔ t.isLiteral = true) ∧ ∀ r, o = some r →
    r.expression = e.id ∧ r.segment = a.segment ∧ r.base = a.base ∧ r.parts.getD [] = a.parts

namespace AtomizeInput

/-- The expression with an identifier is read as `t` and stands for `x`. -/
structure StandsFor (i : AtomizeInput) (id : Ident) (noSplice : Bool) (e : DesignExpression)
    (t : Pattern.Expression) (x : Expansion) : Prop where
  expression : i.expressions[id]? = some e
  read : (Pattern.parse (i.options e noSplice) e.raw).value = some t
  expansion : (Pattern.expand (i.options e noSplice) e.raw).value = some x

/-- The nets of a declaration: one for each atom, and a port has one segment. -/
def NetsOf (i : AtomizeInput) (d : DesignNet) (nets : List Net) : Prop :=
  ∃ e t x, i.StandsFor d.expression d.isPort e t x ∧ (d.isPort = true → t.isSpliced = false) ∧
    List.Forall₂ (fun a n => n.name = a.literal ∧ n.isPort = d.isPort ∧ Records e t a n.origin ∧
      n.span = e.span) x.atoms nets

/-- A parameter of the instance with a place in its declaration: a single value is that of all
instances, and of several ones each instance has its own. -/
def ParamAt (i : AtomizeInput) (k : Nat) (p : DesignParam) (v : Param) : Prop :=
  v.name = p.name ∧ ∃ e t y, i.StandsFor p.expression false e t y ∧
    if y.length = 1 then y.literals = [v.value] else y.literals[k]? = some v.value

/-- The instances of a declaration: one for each atom, with all parameters. -/
def InstancesOf (i : AtomizeInput) (d : DesignInstance) (insts : List Instance) : Prop :=
  ∃ e t x, i.StandsFor d.expression false e t x ∧ insts.length = x.length ∧
    ∀ (k : Nat) (a : Atom) (inst : Instance), x.atoms[k]? = some a → insts[k]? = some inst →
      inst.name = a.literal ∧ inst.ref = d.ref ∧ Records e t a inst.origin ∧ inst.span = e.span ∧
      (inst.params = none ↔ d.params = []) ∧
      List.Forall₂ (i.ParamAt k) d.params (inst.params.getD [])

/-- The number of atoms of an expression. -/
def atomCount (i : AtomizeInput) (id : Ident) (noSplice : Bool) : Nat :=
  ((i.expand id noSplice).value.map (·.2.length)).getD 0

/-- The number of nets that a module declares. -/
def netCount (i : AtomizeInput) : Nat :=
  (i.decl.nets.map fun d => i.atomCount d.expression d.isPort).sum

/-- The number of instances that a module declares. -/
def instanceCount (i : AtomizeInput) : Nat :=
  (i.decl.instances.map fun d => i.atomCount d.expression false).sum

end AtomizeInput

/-- A module lists what is declared and nothing else. -/
structure Module.ListsDeclared (i : AtomizeInput) (m : Module) : Prop where
  nets : ∃ nss, List.Forall₂ i.NetsOf i.decl.nets nss ∧ m.nets.items = nss.flatten
  instances : ∃ iss, List.Forall₂ i.InstancesOf i.decl.instances iss ∧
    m.instances.items = iss.flatten
  ports : m.portList = (m.nets.items.filter (·.isPort)).map (·.name)
  /-- No port is listed twice. -/
  ports_nodup : m.portList.Nodup

/-- There are numbers left for all nets and instances of a design. -/
structure Design.Fits (design : Design) (alloc : Allocator) (maxAtoms : Int) : Prop where
  nets : alloc.count .net + (design.modules.map fun m =>
    AtomizeInput.netCount ⟨design.expressions, m, maxAtoms⟩).sum < idLimit
  instances : alloc.count .instance_ + (design.modules.map fun m =>
    AtomizeInput.instanceCount ⟨design.expressions, m, maxAtoms⟩).sum < idLimit

/-! ## Expressions and parameters -/

variable {e : DesignExpression} {i : AtomizeInput} {x : Expansion}

theorem AtomizeInput.exists_standsFor {id : Ident} {noSplice : Bool}
    (h : (i.expand id noSplice).value = some (e, x)) :
    ∃ t, i.StandsFor id noSplice e t x ∧ x.isLiteral = t.isLiteral ∧
      (noSplice = true → t.isSpliced = false) := by
  obtain ⟨he, hx⟩ := expand_eq_some h
  obtain ⟨t, atoms, ht, _, _, rfl⟩ := Pattern.expand_eq_some_iff.mp hx
  refine ⟨t, ⟨he, ht, hx⟩, rfl, fun hsplice => ?_⟩
  have hone : t.segments.length ≤ 1 := (Pattern.readWith_eq_some_iff.mp ht).2.2.1 hsplice
  simpa [Pattern.Expression.isSpliced] using hone

/-- An expansion has as many atoms as are counted. -/
theorem AtomizeInput.atomCount_eq {id : Ident} {noSplice : Bool}
    (h : (i.expand id noSplice).value = some (e, x)) :
    i.atomCount id noSplice = x.length := by
  rw [atomCount, h]
  rfl

/-- The origin says from which expression and which parts an atom is. -/
theorem records_originOf {t : Pattern.Expression}
    (h : x.isLiteral = t.isLiteral) (a : Atom) : Records e t a (originOf e x a) := by
  rw [originOf]
  cases hx : x.isLiteral with
  | true => simp [Records, ← h, hx]
  | false =>
      refine ⟨by simp [← h, hx], fun r hr => ?_⟩
      cases hr
      refine ⟨rfl, rfl, rfl, ?_⟩
      cases a.parts <;> simp

/-- Without errors every parameter has its values: one, or one for each instance. -/
theorem forall₂_paramValues {inst : DesignExpression} {count : Nat}
    {params : List DesignParam} (h : (paramValues i inst count params).hasErrors = false) :
    List.Forall₂ (fun (p : DesignParam) (v : String × List String) => v.1 = p.name ∧ ∃ e y,
        (i.expand p.expression false).value = some (e, y) ∧ v.2 = y.literals ∧
        (y.length = 1 ∨ y.length = count))
      params (paramValues i inst count params).value := by
  induction params with
  | nil => exact .nil
  | cons p rest ih =>
      rw [paramValues, Logged.hasErrors_bind, Bool.or_eq_false_iff] at h
      rw [paramValues, Logged.value_bind]
      obtain ⟨hfound, h⟩ := h
      cases hx : (i.expand p.expression false).value with
      | none =>
          rw [AtomizeInput.hasErrors_of_expand hx] at hfound
          cases hfound
      | some q =>
          obtain ⟨e, y⟩ := q
          simp only [hx] at h ⊢
          by_cases hlen : (y.length != 1 && y.length != count) = true
          · rw [if_pos hlen, Logged.hasErrors_bind, Bool.or_eq_false_iff] at h
            cases h.1
          · rw [if_neg hlen, pure_bind, Logged.hasErrors_bind, Bool.or_eq_false_iff] at h
            rw [if_neg hlen, pure_bind]
            refine .cons ⟨rfl, e, y, hx, rfl, ?_⟩ (ih h.1)
            simpa [or_iff_not_imp_left] using hlen

/-- The column of a parameter: a single value is repeated. -/
theorem exists_column {count : Nat} {name : String} {vs : List String}
    (h : vs.length = 1 ∨ vs.length = count) : ∃ column : List Param,
      (∀ values, paramRows count ((name, vs) :: values) =
        List.zipWith List.cons column (paramRows count values)) ∧ column.length = count ∧
      ∀ (k : Nat) (q : Param), column[k]? = some q → q.name = name ∧
        if vs.length = 1 then vs = [q.value] else vs[k]? = some q.value := by
  by_cases hone : vs.length = 1
  · obtain ⟨v, rfl⟩ := List.length_eq_one_iff.mp hone
    refine ⟨List.replicate count ⟨name, v⟩, fun _ => rfl, List.length_replicate, fun k q hq => ?_⟩
    obtain rfl := List.eq_of_mem_replicate (List.mem_of_getElem? hq)
    simp
  · have hcolumn : ∀ values, paramRows count ((name, vs) :: values) =
        List.zipWith List.cons (vs.map (Param.mk name)) (paramRows count values) := by
      intro values
      rcases vs with _ | ⟨v, _ | ⟨w, vs⟩⟩
      · rfl
      · exact absurd rfl hone
      · rfl
    refine ⟨vs.map (Param.mk name), hcolumn, ?_, fun k q hq => ?_⟩
    · rw [List.length_map]
      exact h.resolve_left hone
    · rw [if_neg hone]
      rw [List.getElem?_map, Option.map_eq_some_iff] at hq
      obtain ⟨v, hv, rfl⟩ := hq
      exact ⟨rfl, hv⟩

/-- Each instance has its own row. -/
theorem forall₂_paramRows {count : Nat} {values : List (String × List String)}
    (h : ∀ v ∈ values, v.2.length = 1 ∨ v.2.length = count) :
    (paramRows count values).length = count ∧
      ∀ (k : Nat) (row : List Param), (paramRows count values)[k]? = some row →
        List.Forall₂ (fun (v : String × List String) (q : Param) => q.name = v.1 ∧
          if v.2.length = 1 then v.2 = [q.value] else v.2[k]? = some q.value) values row := by
  induction values with
  | nil =>
      refine ⟨List.length_replicate, fun k row hrow => ?_⟩
      rw [List.eq_of_mem_replicate (List.mem_of_getElem? hrow)]
      exact .nil
  | cons v values ih =>
      obtain ⟨hlen, hrows⟩ := ih fun w hw => h w (List.mem_cons_of_mem _ hw)
      obtain ⟨column, heq, hcount, hcolumn⟩ := exists_column (h v (List.mem_cons_self ..))
      rw [heq]
      refine ⟨by rw [List.length_zipWith, hlen, hcount, Nat.min_self], fun k row hrow => ?_⟩
      obtain ⟨q, rest, hq, hrest, rfl⟩ := List.getElem?_zipWith_eq_some.mp hrow
      exact .cons (hcolumn k q hq) (hrows k rest hrest)

/-! ## One step after another -/

namespace Atomizing

/-- The net that an event makes. -/
def Event.net? : Event → Option Net
  | .net n => some n
  | _ => none

/-- The instance that an event makes. -/
def Event.inst? : Event → Option Instance
  | .inst i => some i
  | _ => none

/-- The ports that an event adds. -/
def Event.portNames : Event → List String
  | .ports names => names
  | _ => []

/-- No identifier of a net or an instance is after the last one of its kind. -/
structure Ordered (s : Atomizing) : Prop where
  nets : Below .net (s.alloc.lastOf .net) s.modul.nets
  instances : Below .instance_ (s.alloc.lastOf .instance_) s.modul.instances

/-- There are numbers left for the nets and instances of some events. -/
structure Room (s : Atomizing) (es : List Event) : Prop where
  nets : s.alloc.count .net + (es.filterMap Event.net?).length < idLimit
  instances : s.alloc.count .instance_ + (es.filterMap Event.inst?).length < idLimit

/-- What some events make stands at the end, in their order, and is counted. -/
structure Listed (s : Atomizing) (es : List Event) (s' : Atomizing) : Prop where
  nets : s'.modul.nets.items = s.modul.nets.items ++ es.filterMap Event.net?
  instances : s'.modul.instances.items = s.modul.instances.items ++ es.filterMap Event.inst?
  ports : s'.modul.portList = s.modul.portList ++ es.flatMap Event.portNames
  net_count : s'.alloc.count .net = s.alloc.count .net + (es.filterMap Event.net?).length
  instance_count :
    s'.alloc.count .instance_ = s.alloc.count .instance_ + (es.filterMap Event.inst?).length

variable {es : List Event} {i : AtomizeInput} {e : Event} {s : Atomizing} {nets : List Net}

/-- One event and then the others. -/
theorem Listed.cons {s s₁ s' : Atomizing} (h : Listed s [e] s₁)
    (h' : Listed s₁ es s') : Listed s (e :: es) s' := by
  have hnets : (e :: es).filterMap Event.net? =
      [e].filterMap Event.net? ++ es.filterMap Event.net? := List.filterMap_append (l := [e])
  have hinsts : (e :: es).filterMap Event.inst? =
      [e].filterMap Event.inst? ++ es.filterMap Event.inst? := List.filterMap_append (l := [e])
  constructor
  · rw [h'.nets, h.nets, hnets, List.append_assoc]
  · rw [h'.instances, h.instances, hinsts, List.append_assoc]
  · simp [h'.ports, h.ports]
  · rw [h'.net_count, h.net_count, hnets, List.length_append, Nat.add_assoc]
  · rw [h'.instance_count, h.instance_count, hinsts, List.length_append, Nat.add_assoc]

theorem Room.head (h : Room s (e :: es)) :
    Room s [e] := by
  have hsub : [e].Sublist (e :: es) := (List.nil_sublist es).cons_cons e
  constructor
  · have := (hsub.filterMap Event.net?).length_le
    exact Nat.lt_of_le_of_lt (Nat.add_le_add_left this _) h.nets
  · have := (hsub.filterMap Event.inst?).length_le
    exact Nat.lt_of_le_of_lt (Nat.add_le_add_left this _) h.instances

theorem Room.tail {s s₁ : Atomizing} (h : Room s (e :: es))
    (h₁ : Listed s [e] s₁) : Room s₁ es := by
  constructor
  · rw [h₁.net_count, Nat.add_assoc, ← List.length_append, ← List.filterMap_append]
    exact h.nets
  · rw [h₁.instance_count, Nat.add_assoc, ← List.length_append, ← List.filterMap_append]
    exact h.instances

theorem Listed.of_same {s s' : Atomizing}
    (he : e.net? = none ∧ e.inst? = none ∧ e.portNames = []) (hnets : s'.modul.nets = s.modul.nets)
    (hinsts : s'.modul.instances = s.modul.instances) (hports : s'.modul.ports = s.modul.ports)
    (hn : s'.alloc.lastOf .net = s.alloc.lastOf .net)
    (hi : s'.alloc.lastOf .instance_ = s.alloc.lastOf .instance_) : Listed s [e] s' := by
  obtain ⟨hnet, hinst, hport⟩ := he
  constructor <;> simp [hnet, hinst, hport, hnets, hinsts, hports, hn, hi, Module.portList,
    Allocator.count]

/-- An endpoint changes no list of nets or instances. -/
theorem listed_withEndpoint (hs : s.Ordered) (b : Bound)
    (he : e.net? = none ∧ e.inst? = none ∧ e.portNames = []) :
    Listed s [e] (s.withEndpoint b) ∧ (s.withEndpoint b).Ordered := by
  have hn : (s.withEndpoint b).alloc.lastOf .net = s.alloc.lastOf .net :=
    Allocator.lastOf_next_of_ne _ (by decide)
  have hi : (s.withEndpoint b).alloc.lastOf .instance_ = s.alloc.lastOf .instance_ :=
    Allocator.lastOf_next_of_ne _ (by decide)
  refine ⟨.of_same he rfl rfl rfl hn hi, ?_, ?_⟩
  · rw [hn]
    exact hs.nets
  · rw [hi]
    exact hs.instances

/-- A new instance is the last of the list. -/
theorem listed_withInstance (hs : s.Ordered) {inst : Instance}
    (hid : inst.id = (s.alloc.next .instance_).1) (hroom : Room s [.inst inst]) :
    Listed s [.inst inst] (s.withInstance inst) ∧ (s.withInstance inst).Ordered := by
  have hlast : (s.alloc.lastOf .instance_).toNat + 1 < idLimit := hroom.instances
  have hself : (s.withInstance inst).alloc.lastOf .instance_ = s.alloc.lastOf .instance_ + 1 :=
    Allocator.lastOf_next_self _ _
  have hn : (s.withInstance inst).alloc.lastOf .net = s.alloc.lastOf .net :=
    Allocator.lastOf_next_of_ne _ (by decide)
  have hinsts : (s.withInstance inst).modul.instances = s.modul.instances.insert
      (Ident.ofNumber .instance_ (s.alloc.lastOf .instance_ + 1)) inst := by
    rw [withInstance, hid]
    rfl
  refine ⟨⟨(List.append_nil _).symm, ?_, (List.append_nil _).symm, congrArg UInt32.toNat hn, ?_⟩,
    ?_, ?_⟩
  · rw [hinsts]
    exact hs.instances.items_insert hlast inst
  · rw [Allocator.count, hself]
    exact Below.toNat_next hlast
  · rw [hn]
    exact hs.nets
  · rw [hself, hinsts]
    exact hs.instances.insert hlast inst

/-- A new net is the last of the list. -/
theorem listed_withNet (hs : s.Ordered) {net : Net}
    (hid : net.id = (s.alloc.next .net).1) (hroom : Room s [.net net]) :
    Listed s [.net net] (s.withNet net) ∧ (s.withNet net).Ordered := by
  have hlast : (s.alloc.lastOf .net).toNat + 1 < idLimit := hroom.nets
  have hself : (s.withNet net).alloc.lastOf .net = s.alloc.lastOf .net + 1 :=
    Allocator.lastOf_next_self _ _
  have hi : (s.withNet net).alloc.lastOf .instance_ = s.alloc.lastOf .instance_ :=
    Allocator.lastOf_next_of_ne _ (by decide)
  have hnets : (s.withNet net).modul.nets = s.modul.nets.insert
      (Ident.ofNumber .net (s.alloc.lastOf .net + 1)) net := by
    rw [withNet, hid]
    rfl
  refine ⟨⟨?_, (List.append_nil _).symm, (List.append_nil _).symm, ?_, congrArg UInt32.toNat hi⟩,
    ?_, ?_⟩
  · rw [hnets]
    exact hs.nets.items_insert hlast net
  · rw [Allocator.count, hself]
    exact Below.toNat_next hlast
  · rw [hself, hnets]
    exact hs.nets.insert hlast net
  · rw [hi]
    exact hs.instances

/-- What a step makes is the last of its kind. -/
theorem Step.listed {s s' : Atomizing} (h : Step s e s') (hs : s.Ordered)
    (hroom : Room s [e]) : Listed s [e] s' ∧ s'.Ordered := by
  cases h with
  | name => exact ⟨.of_same ⟨rfl, rfl, rfl⟩ rfl rfl rfl rfl rfl, hs.nets, hs.instances⟩
  | inst inst hid => exact listed_withInstance hs hid hroom
  | net net hid => exact listed_withNet hs hid hroom
  | ports names =>
      have hnames : [Event.ports names].flatMap Event.portNames = names := List.append_nil _
      refine ⟨⟨?_, ?_, ?_, rfl, rfl⟩, hs.nets, hs.instances⟩
      · exact (List.append_nil _).symm
      · exact (List.append_nil _).symm
      · rw [hnames]
        rfl
  | connect _ _ b => exact listed_withEndpoint hs b ⟨rfl, rfl, rfl⟩
  | again => exact ⟨.of_same ⟨rfl, rfl, rfl⟩ rfl rfl rfl rfl rfl, hs⟩
  | applyDefault _ _ b => exact listed_withEndpoint hs b ⟨rfl, rfl, rfl⟩
  | overridden => exact ⟨.of_same ⟨rfl, rfl, rfl⟩ rfl rfl rfl rfl rfl, hs⟩

/-- What a run makes stands in the order of its events. -/
theorem Trace.listed {s s' : Atomizing} (h : Trace s es s') (hs : s.Ordered)
    (hroom : Room s es) : Listed s es s' ∧ s'.Ordered := by
  induction h with
  | nil s => exact ⟨⟨(List.append_nil _).symm, (List.append_nil _).symm, (List.append_nil _).symm,
      rfl, rfl⟩, hs⟩
  | cons hstep _ ih =>
      obtain ⟨h₁, hs₁⟩ := hstep.listed hs hroom.head
      obtain ⟨h', hs'⟩ := ih hs₁ (hroom.tail h₁)
      exact ⟨h₁.cons h', hs'⟩

/-! ## The events of declarations -/

/-- What some events make, with the ports among the nets. -/
structure Makes (es : List Event) (ns : List Net) (insts : List Instance) : Prop where
  nets : es.filterMap Event.net? = ns
  instances : es.filterMap Event.inst? = insts
  ports : es.flatMap Event.portNames = (ns.filter (·.isPort)).map (·.name)

theorem Makes.append {es fs : List Event} {nets nets' : List Net} {insts insts' : List Instance}
    (h : Makes es nets insts) (h' : Makes fs nets' insts') :
    Makes (es ++ fs) (nets ++ nets') (insts ++ insts') := by
  constructor
  · rw [List.filterMap_append, h.nets, h'.nets]
  · rw [List.filterMap_append, h.instances, h'.instances]
  · rw [List.flatMap_append, h.ports, h'.ports, List.filter_append, List.map_append]

/-- Events that make nothing. -/
theorem Makes.nothing
    (h : ∀ e ∈ es, e.net? = none ∧ e.inst? = none ∧ e.portNames = []) : Makes es [] [] := by
  constructor
  · exact List.filterMap_eq_nil_iff.mpr fun e he => (h e he).1
  · exact List.filterMap_eq_nil_iff.mpr fun e he => (h e he).2.1
  · exact List.flatMap_eq_nil_iff.mpr fun e he => (h e he).2.2

theorem makes_instances (insts : List Instance) : Makes (insts.map .inst) [] insts := by
  induction insts with
  | nil => exact .nothing (by simp)
  | cons inst insts ih =>
      have hone : Makes [.inst inst] [] [inst] := ⟨rfl, rfl, rfl⟩
      exact hone.append ih

/-- Nets with the event that adds their ports. -/
theorem makes_nets {isPort : Bool} (h : ∀ n ∈ nets, n.isPort = isPort) :
    Makes (nets.map .net ++ if isPort then [.ports (nets.map (·.name))] else []) nets [] := by
  have hnets : (nets.map Event.net).filterMap Event.net? = nets := by
    rw [List.filterMap_map]
    exact List.filterMap_some
  have hinsts : (nets.map Event.net).filterMap Event.inst? = [] := by
    rw [List.filterMap_map]
    exact List.filterMap_eq_nil_iff.mpr fun _ _ => rfl
  have hports : (nets.map Event.net).flatMap Event.portNames = [] := by
    rw [List.flatMap_map]
    exact List.flatMap_eq_nil_iff.mpr fun _ _ => rfl
  cases isPort with
  | false =>
      have hnone : nets.filter (·.isPort) = [] :=
        List.filter_eq_nil_iff.mpr fun n hn => by simp [h n hn]
      refine ⟨?_, ?_, ?_⟩ <;> simp [hnets, hinsts, hports, hnone]
  | true =>
      have hall : nets.filter (·.isPort) = nets := List.filter_eq_self.mpr h
      refine ⟨?_, ?_, ?_⟩
      · simp [hnets, Event.net?]
      · simp [hinsts, Event.inst?]
      · simp [hports, Event.portNames, hall]

/-- Endpoints make neither nets nor instances. -/
theorem EndpointEvents.makes {x : Expansion}
    {d : DesignEndpoint} (h : EndpointEvents i x nets d es) : Makes es [] [] := by
  obtain ⟨_, _, atoms, b, _, _, _, rfl⟩ := h
  refine .nothing fun e he => ?_
  obtain ⟨q, _, he⟩ := List.mem_flatMap.mp he
  obtain ⟨net, _, rfl⟩ := Option.map_eq_some_iff.mp (Option.mem_toList.mp he)
  exact ⟨rfl, rfl, rfl⟩

theorem makes_endpoints {x : Expansion} {ds : List DesignEndpoint} {ess : List (List Event)}
    (h : List.Forall₂ (EndpointEvents i x nets) ds ess) : Makes ess.flatten [] [] := by
  induction h with
  | nil => exact .nothing (by simp)
  | cons hes _ ih => exact hes.makes.append ih

/-- The declaration of a net makes the nets it lists. -/
theorem NetEvents.makes {d : DesignNet} (h : NetEvents i d es) : ∃ nets, (i.NetsOf d nets ∧
      nets.length = i.atomCount d.expression d.isPort) ∧ Makes es nets [] := by
  obtain ⟨e, x, nets, ess, hx, hnets, hess, rfl⟩ := h
  obtain ⟨t, ht, hliteral, hsplice⟩ := AtomizeInput.exists_standsFor hx
  have hends : Makes ess.flatten [] [] := makes_endpoints hess
  refine ⟨nets, ⟨⟨e, t, x, ht, hsplice, ?_⟩, ?_⟩, ?_⟩
  · refine hnets.imp fun a n hn => ?_
    rw [hn]
    exact ⟨rfl, rfl, records_originOf hliteral a, rfl⟩
  · rw [AtomizeInput.atomCount_eq hx, ← hnets.length_eq]
    rfl
  · have hports : ∀ n ∈ nets, n.isPort = d.isPort := by
      intro n hn
      obtain ⟨a, _, ha⟩ := forall₂_exists_of_mem_right hnets hn
      rw [ha]
      rfl
    rw [← List.append_assoc]
    simpa using (makes_nets hports).append hends

/-- The declaration of an instance makes the instances it lists. -/
theorem InstanceEvents.makes {d : DesignInstance}
    (h : InstanceEvents i d es) : ∃ insts, (i.InstancesOf d insts ∧
      insts.length = i.atomCount d.expression false) ∧ Makes es [] insts := by
  obtain ⟨e, x, insts, hx, hvalues, hinsts, rfl⟩ := h
  obtain ⟨t, ht, hliteral, _⟩ := AtomizeInput.exists_standsFor hx
  have hvalues := forall₂_paramValues hvalues
  have hlens : ∀ v ∈ (paramValues i e x.length d.params).value,
      v.2.length = 1 ∨ v.2.length = x.length := by
    intro v hv
    obtain ⟨p, _, _, _, y, _, hy, hlen⟩ := forall₂_exists_of_mem_right hvalues hv
    rw [hy, Expansion.literals, List.length_map]
    exact hlen
  obtain ⟨hrows, hrow⟩ := forall₂_paramRows hlens
  have hlen : insts.length = x.length := by
    rw [← hinsts.length_eq, List.length_zip, hrows]
    exact Nat.min_self _
  refine ⟨insts, ⟨⟨e, t, x, ht, hlen, fun k a inst ha hinst => ?_⟩, ?_⟩, makes_instances insts⟩
  · obtain ⟨⟨a', row⟩, hq, hmade⟩ := forall₂_getElem? hinsts hinst
    obtain ⟨ha', hrow'⟩ := List.getElem?_zip_eq_some.mp hq
    obtain rfl : a = a' := Option.some.inj (ha.symm.trans ha')
    have hparams : List.Forall₂ (i.ParamAt k) d.params row := by
      refine forall₂_trans ?_ hvalues (hrow k row hrow')
      rintro p ⟨name, vs⟩ v ⟨rfl, e', y, hy, rfl, _⟩ ⟨hname, hv⟩
      obtain ⟨t', ht', _⟩ := AtomizeInput.exists_standsFor hy
      rw [Expansion.literals, List.length_map] at hv
      exact ⟨hname, e', t', y, ht', hv⟩
    have hempty : row = [] ↔ d.params = [] := by
      rw [← List.length_eq_zero_iff, ← List.length_eq_zero_iff, hparams.length_eq]
    rw [hmade]
    refine ⟨rfl, rfl, records_originOf hliteral a, rfl, ?_, ?_⟩
    · simp [instanceOf, hempty]
    · have hget : (instanceOf d.ref e x a row inst.id).params.getD [] = row := by cases row <;> rfl
      rwa [hget]
  · rw [hlen, AtomizeInput.atomCount_eq hx]

/-! ## A whole module -/

theorem exists_flatten {α γ : Type} {R : List Event → List γ → Prop} (hnil : R [] [])
    (happend : ∀ {es fs cs ds}, R es cs → R fs ds → R (es ++ fs) (cs ++ ds))
    {P : α → List Event → Prop} {Q : α → List γ → Prop}
    (hP : ∀ {a es}, P a es → ∃ cs, Q a cs ∧ R es cs) {l : List α} {ess : List (List Event)}
    (h : List.Forall₂ P l ess) : ∃ css, List.Forall₂ Q l css ∧ R ess.flatten css.flatten := by
  induction h with
  | nil => exact ⟨[], .nil, hnil⟩
  | cons hes _ ih =>
      obtain ⟨cs, hcs, hR⟩ := hP hes
      obtain ⟨css, hcss, hRs⟩ := ih
      exact ⟨cs :: css, .cons hcs hcss, happend hR hRs⟩

theorem length_flatten_eq {α γ : Type} {Q : α → List γ → Prop} {count : α → Nat} {l : List α}
    {css : List (List γ)} (h : List.Forall₂ (fun a cs => Q a cs ∧ cs.length = count a) l css) :
    css.flatten.length = (l.map count).sum := by
  induction h with
  | nil => rfl
  | cons hcs _ ih => rw [List.flatten_cons, List.length_append, hcs.2, ih, List.map_cons,
      List.sum_cons]

/-- All declarations make what they list, in order. -/
theorem DeclaredEvents.makes {iss ess : List (List Event)}
    (h : DeclaredEvents i iss ess es) : ∃ nss insts,
      List.Forall₂ i.NetsOf i.decl.nets nss ∧ List.Forall₂ i.InstancesOf i.decl.instances insts ∧
      nss.flatten.length = i.netCount ∧ insts.flatten.length = i.instanceCount ∧
      Makes es nss.flatten insts.flatten := by
  obtain ⟨name, rfl⟩ := h.eq_append
  obtain ⟨insts, hinsts, hmakes⟩ := exists_flatten (R := fun es cs => Makes es [] cs)
    (.nothing (by simp)) (fun h h' => h.append h') (fun h => h.makes) h.instances
  obtain ⟨nss, hnss, hmakes'⟩ := exists_flatten (R := fun es cs => Makes es cs [])
    (.nothing (by simp)) (fun h h' => h.append h') (fun h => h.makes) h.nets
  refine ⟨nss, insts, hnss.imp fun _ _ h => h.1, hinsts.imp fun _ _ h => h.1,
    length_flatten_eq hnss, length_flatten_eq hinsts, ?_⟩
  have hname : Makes [.name name] [] [] := ⟨rfl, rfl, rfl⟩
  simpa using hname.append (hmakes.append hmakes')

end Atomizing

/-- A module made without errors lists what is declared, and takes that many numbers. -/
theorem listsDeclared_of_clean {i : AtomizeInput} {alloc : Allocator} {s' : Atomizing}
    (h : Clean (atomizeAll i) (start i alloc) () s')
    (hnets : alloc.count .net + i.netCount < idLimit)
    (hinsts : alloc.count .instance_ + i.instanceCount < idLimit) :
    (s'.modul.portList.Nodup → s'.modul.ListsDeclared i) ∧
      s'.alloc.count .net = alloc.count .net + i.netCount ∧
      s'.alloc.count .instance_ = alloc.count .instance_ + i.instanceCount := by
  obtain ⟨s₁, iss, ess, es, resolved, hdecl, hfirst, _, hlast⟩ := clean_atomizeAll h
  obtain ⟨nss, insts, hnss, hinstss, hnlen, hilen, hmakes⟩ := hdecl.makes
  have hnone : Makes ((defaultPairs s₁.made resolved.flatten).map fun q =>
      .applyDefault q.1 q.2) [] [] := by
    refine .nothing fun e he => ?_
    obtain ⟨q, _, rfl⟩ := List.mem_map.mp he
    exact ⟨rfl, rfl, rfl⟩
  have hall := hmakes.append hnone
  simp only [List.append_nil] at hall
  have hstart : (start i alloc).Ordered :=
    ⟨fun id hid => absurd hid Std.ExtTreeMap.not_mem_empty,
      fun id hid => absurd hid Std.ExtTreeMap.not_mem_empty⟩
  obtain ⟨hlisted, _⟩ := (hfirst.append hlast).listed hstart
    ⟨by rwa [hall.nets, hnlen], by rwa [hall.instances, hilen]⟩
  refine ⟨fun hnodup => ⟨⟨nss, hnss, ?_⟩, ⟨insts, hinstss, ?_⟩, ?_, hnodup⟩, ?_, ?_⟩
  · rw [hlisted.nets, hall.nets]
    rfl
  · rw [hlisted.instances, hall.instances]
    rfl
  · rw [hlisted.ports, hlisted.nets, hall.ports, hall.nets]
    rfl
  · rw [hlisted.net_count, hall.nets, hnlen]
    rfl
  · rw [hlisted.instance_count, hall.instances, hilen]
    rfl

/-! ## A whole design -/

/-- Modules are atomized in order, with the identifiers that are left. -/
theorem value_atomizeModules_cons (design : Design) (maxAtoms : Int) (alloc : Allocator)
    (decl : DesignModule) (decls : List DesignModule) :
    (atomizeModules design maxAtoms alloc (decl :: decls)).value.1 =
      (atomizeModule ⟨design.expressions, decl, maxAtoms⟩ alloc).value.1 ::
        (atomizeModules design maxAtoms
          (atomizeModule ⟨design.expressions, decl, maxAtoms⟩ alloc).value.2 decls).value.1 := rfl

/-- Modules made without errors list what their declarations say. -/
theorem forall₂_listsDeclared {design : Design} {maxAtoms : Int} {decls : List DesignModule} :
    ∀ {alloc : Allocator}, (atomizeModules design maxAtoms alloc decls).hasErrors = false →
      alloc.count .net + (decls.map fun m =>
        AtomizeInput.netCount ⟨design.expressions, m, maxAtoms⟩).sum < idLimit →
      alloc.count .instance_ + (decls.map fun m =>
        AtomizeInput.instanceCount ⟨design.expressions, m, maxAtoms⟩).sum < idLimit →
      List.Forall₂ (fun decl m => m.id = decl.id ∧
          (m.portList.Nodup → m.ListsDeclared ⟨design.expressions, decl, maxAtoms⟩))
        decls (atomizeModules design maxAtoms alloc decls).value.1 := by
  induction decls with
  | nil => exact fun _ _ _ => .nil
  | cons decl decls ih =>
      intro alloc h hnets hinsts
      rw [atomizeModules, Logged.hasErrors_bind, Bool.or_eq_false_iff] at h
      obtain ⟨hone, hrest⟩ := h
      rw [List.map_cons, List.sum_cons] at hnets hinsts
      obtain ⟨s', hclean, hmodul, halloc⟩ := clean_of_atomizeModule hone
      obtain ⟨hlists, hncount, hicount⟩ :=
        listsDeclared_of_clean hclean (by dsimp only at *; omega) (by dsimp only at *; omega)
      have hid := id_of_clean hclean
      rw [halloc] at hncount hicount
      rw [hmodul] at hid hlists
      rw [value_atomizeModules_cons]
      refine .cons ⟨hid, hlists⟩ (ih ?_ ?_ ?_)
      · exact (Bool.or_eq_false_iff.mp (Logged.hasErrors_bind .. ▸ hrest)).1
      · rw [hncount]
        omega
      · rw [hicount]
        omega

/-! ## A design with ranges

The module of this design has the ports `d[1:0]` and the instances `u<a,b>` of a device, with the
values `<x,y>` of a parameter. -/

namespace Ranged

def ref : Ref := ⟨.device, .ofText "d1", "r"⟩

def nameText : DesignExpression := ⟨.ofText "x1", .moduleName, "top", .fileStart 0⟩

def instanceText : DesignExpression := ⟨.ofText "x2", .instance_, "u<a,b>", .fileStart 0⟩

def paramText : DesignExpression := ⟨.ofText "x3", .param, "<x,y>", .fileStart 0⟩

def netText : DesignExpression := ⟨.ofText "x4", .net, "d[1:0]", .fileStart 0⟩

def decl : DesignModule :=
  { id := .ofText "m1", name := "top", nameExpression := nameText.id, file := 0,
    span := .fileStart 0
    patterns := [], parameters := []
    nets := [⟨netText.id, true, []⟩]
    instances := [⟨instanceText.id, ref, [⟨"w", paramText.id⟩]⟩]
    defaults := [] }

def design : Design :=
  { top := decl.id
    modules := [decl]
    devices := [{ id := ref.id, name := "r" }]
    expressions := IdMap.ofItems DesignExpression.id [nameText, instanceText, paramText, netText] }

def input : AtomizeInput := ⟨design.expressions, decl, 0⟩

/-! ### Its expressions -/

/-- The values of a group. -/
def choice (start stop : Nat) (a b : String) : Pattern.Piece :=
  .group ⟨.enumeration, [.literal a, .literal b], none, start, stop⟩

def nameSegment : Pattern.Segment := ⟨[.text "top"], 0, 3⟩

def instanceSegment : Pattern.Segment := ⟨[.text "u", choice 1 6 "a" "b"], 0, 6⟩

def paramSegment : Pattern.Segment := ⟨[choice 0 5 "x" "y"], 0, 5⟩

def netSegment : Pattern.Segment :=
  ⟨[.text "d", .group ⟨.range, [.number 1, .number 0], none, 1, 6⟩], 0, 6⟩

/-- What an expression of one segment stands for. -/
def expansion (e : DesignExpression) (s : Pattern.Segment) (atoms : List Atom) : Expansion :=
  ⟨e.raw, false, s.groups.isEmpty, atoms, s.groups.map Pattern.axisOf⟩

theorem expand_eq {e : DesignExpression} {s : Pattern.Segment} {atoms : List Atom}
    {noSplice : Bool}
    (he : [netText, paramText, instanceText, nameText].find? (·.id == e.id) = some e)
    (hread : Pattern.read (input.options e noSplice) e.raw = (some ⟨e.raw, [s]⟩, []))
    (hatoms : Pattern.expandSegments (input.options e noSplice).limit 0 [s] = some atoms)
    (hnodup : (atoms.map (·.literal)).Nodup) :
    input.expand e.id noSplice = ⟨some (e, expansion e s atoms), []⟩ := by
  have hget : input.expressions[e.id]? = some e := by
    rw [input, design, IdMap.getElem?_ofItems]
    exact he
  simp only [AtomizeInput.expand, AtomizeInput.expression, hget, pure_bind,
    Pattern.expand_of_segment hread hatoms hnodup]
  rfl

theorem expand_name : input.expand nameText.id true =
    ⟨some (nameText, expansion nameText nameSegment [⟨"top", "top", 0, []⟩]), []⟩ :=
  expand_eq (by decide +kernel) (by decide +kernel) (by decide +kernel) (by decide)

/-- The atoms of the instances. -/
def instanceAtoms : List Atom :=
  [⟨"ua", "u", 0, [.literal "a"]⟩, ⟨"ub", "u", 0, [.literal "b"]⟩]

theorem expand_instance : input.expand instanceText.id false =
    ⟨some (instanceText, expansion instanceText instanceSegment instanceAtoms), []⟩ :=
  expand_eq (by decide +kernel) (by decide +kernel) (by decide +kernel) (by decide)

theorem expand_param : input.expand paramText.id false =
    ⟨some (paramText, expansion paramText paramSegment
      [⟨"x", "", 0, [.literal "x"]⟩, ⟨"y", "", 0, [.literal "y"]⟩]), []⟩ :=
  expand_eq (by decide +kernel) (by decide +kernel) (by decide +kernel) (by decide)

/-- The atoms of the nets. -/
def netAtoms : List Atom := [⟨"d1", "d", 0, [.number 1]⟩, ⟨"d0", "d", 0, [.number 0]⟩]

theorem expand_net : input.expand netText.id true =
    ⟨some (netText, expansion netText netSegment netAtoms), []⟩ :=
  expand_eq (by decide +kernel) (by decide +kernel) (by decide +kernel) (by decide)

/-! ### Its run -/

/-- One of the instances. -/
def inst (n : UInt32) (a : Atom) (value : String) : Instance :=
  instanceOf ref instanceText (expansion instanceText instanceSegment instanceAtoms) a
    [⟨"w", value⟩] (.ofNumber .instance_ n)

def instA : Instance := inst 1 ⟨"ua", "u", 0, [.literal "a"]⟩ "x"

def instB : Instance := inst 2 ⟨"ub", "u", 0, [.literal "b"]⟩ "y"

/-- One of the nets. -/
def net (n : UInt32) (a : Atom) : Net :=
  netOf true netText (expansion netText netSegment netAtoms) a (.ofNumber .net n)

def netHigh : Net := net 1 ⟨"d1", "d", 0, [.number 1]⟩

def netLow : Net := net 2 ⟨"d0", "d", 0, [.number 0]⟩

/-- After the instances. -/
def withInsts : Atomizing := ((start input {}).withInstance instA).withInstance instB

/-- After the nets, and before they become ports. -/
def withNets : Atomizing := (withInsts.withNet netHigh).withNet netLow

/-- At the end. -/
def final : Atomizing :=
  { withNets with modul := { withNets.modul with ports := some ["d1", "d0"] } }

theorem clean_expand {s : Atomizing} {id : Ident} {noSplice : Bool} {e : DesignExpression}
    {x : Expansion} (h : input.expand id noSplice = ⟨some (e, x), []⟩) :
    Clean (Atomize.logged (input.expand id noSplice)) s (some (e, x)) s := by
  rw [h]
  exact clean_logged.mpr ⟨rfl, rfl, rfl⟩

theorem paramValues_eq : paramValues input instanceText 2 [⟨"w", paramText.id⟩] =
    ⟨[("w", ["x", "y"])], []⟩ := by
  rw [paramValues, expand_param]
  rfl

theorem clean_instances :
    Clean (atomizeInstance input ⟨instanceText.id, ref, [⟨"w", paramText.id⟩]⟩)
    (start input {}) () withInsts := by
  refine clean_bind.mpr ⟨_, _, clean_expand expand_instance, ?_⟩
  refine clean_bind.mpr ⟨[("w", ["x", "y"])], _, ?_, ⟨rfl, rfl⟩⟩
  exact clean_logged.mpr ⟨congrArg Logged.value paramValues_eq, rfl,
    congrArg Logged.hasErrors paramValues_eq⟩

theorem clean_nets : Clean (atomizeNet input ⟨netText.id, true, []⟩) withInsts () final := by
  refine clean_bind.mpr ⟨_, _, clean_expand expand_net, ?_⟩
  exact clean_bind.mpr ⟨[netHigh, netLow], withNets, ⟨rfl, rfl⟩, ⟨rfl, rfl⟩⟩

theorem clean_all : Clean (atomizeAll input) (start input {}) () final := by
  refine clean_bind.mpr ⟨(), start input {}, ?_, ?_⟩
  · exact clean_bind.mpr ⟨_, _, clean_expand expand_name, clean_modify.mpr rfl⟩
  · refine clean_bind.mpr ⟨_, _, clean_forIn_singleton (clean_yield.mpr ⟨rfl, clean_instances⟩), ?_⟩
    refine clean_bind.mpr ⟨_, _, clean_forIn_singleton (clean_yield.mpr ⟨rfl, clean_nets⟩), ?_⟩
    exact ⟨rfl, rfl⟩

/-! ### Its program -/

theorem eq_inst {k : Ident} {x : Instance} (h : final.modul.instances[k]? = some x) :
    k = x.id ∧ (x = instA ∨ x = instB) := by
  rcases IdMap.of_getElem?_insert h with ⟨rfl, rfl⟩ | h
  · exact ⟨rfl, .inr rfl⟩
  · rcases IdMap.of_getElem?_insert h with ⟨rfl, rfl⟩ | h
    · exact ⟨rfl, .inl rfl⟩
    · simp [start] at h

theorem eq_net {k : Ident} {x : Net} (h : final.modul.nets[k]? = some x) :
    k = x.id ∧ (x = netHigh ∨ x = netLow) := by
  rcases IdMap.of_getElem?_insert h with ⟨rfl, rfl⟩ | h
  · exact ⟨rfl, .inr rfl⟩
  · rcases IdMap.of_getElem?_insert h with ⟨rfl, rfl⟩ | h
    · exact ⟨rfl, .inl rfl⟩
    · simp [start, withInsts, withInstance] at h

theorem getElem?_netHigh : final.modul.nets[netHigh.id]? = some netHigh := by
  change ((withInsts.modul.nets.insert netHigh.id netHigh).insert netLow.id netLow)[netHigh.id]? = _
  rw [Std.ExtTreeMap.getElem?_insert, if_neg (by decide +kernel)]
  exact Std.ExtTreeMap.getElem?_insert_self

theorem sound_module : final.modul.Sound (design.programOf [final.modul]) := by
  have hdevice : ref.id ∈ (design.programOf [final.modul]).devices := by
    rw [Std.ExtTreeMap.mem_iff_isSome_getElem?, Design.programOf, IdMap.getElem?_ofItems]
    decide +kernel
  have hends : ∀ (k : Ident) (e : Endpoint), final.modul.endpoints[k]? ≠ some e := by
    intro k e h
    simp [final, withNets, withNet, withInsts, withInstance, start] at h
  constructor
  · intro k₁ k₂ n₁ n₂ h₁ h₂ hname
    obtain ⟨rfl, rfl | rfl⟩ := eq_net h₁ <;> obtain ⟨rfl, rfl | rfl⟩ := eq_net h₂ <;>
      revert hname <;> decide
  · intro k₁ k₂ i₁ i₂ h₁ h₂ hname
    obtain ⟨rfl, rfl | rfl⟩ := eq_inst h₁ <;> obtain ⟨rfl, rfl | rfl⟩ := eq_inst h₂ <;>
      revert hname <;> decide
  · intro k i h
    have href : i.ref = ref := by
      obtain ⟨-, rfl | rfl⟩ := eq_inst h <;> rfl
    rw [href]
    exact .inr ⟨rfl, hdevice⟩
  · exact fun k e h => absurd h (hends k e)
  · exact fun k₁ _ e₁ _ h₁ => absurd h₁ (hends k₁ e₁)
  · change ["d1", "d0"].Nodup
    decide
  · intro port h
    change port ∈ ["d1", "d0"] at h
    rcases List.mem_cons.mp h with rfl | h
    · exact ⟨_, _, getElem?_netHigh, rfl⟩
    · obtain rfl := List.mem_singleton.mp h
      exact ⟨_, netLow, Std.ExtTreeMap.getElem?_insert_self, rfl⟩

theorem getElem?_modules :
    (design.programOf [final.modul]).modules[decl.id]? = some final.modul :=
  Design.getElem?_programOf_singleton.mpr ⟨rfl, rfl⟩

theorem sound_program : (design.programOf [final.modul]).Sound := by
  refine Design.sound_programOf_singleton rfl sound_module fun k x hx => ?_
  obtain ⟨-, rfl | rfl⟩ := eq_inst hx <;> exact RefKind.device_ne_module

theorem atomize_eq : (design.atomize {} 0).value = some (design.programOf [final.modul]).ordered :=
  Design.atomize_of_clean rfl clean_all sound_program

theorem fits : design.Fits {} 0 := by
  have hnets : input.netCount = 2 := by
    change ((input.expand netText.id true).value.map (·.2.length)).getD 0 + 0 = 2
    rw [expand_net]
    rfl
  have hinsts : input.instanceCount = 2 := by
    change ((input.expand instanceText.id false).value.map (·.2.length)).getD 0 + 0 = 2
    rw [expand_instance]
    rfl
  constructor
  · change 0 + (input.netCount + 0) < idLimit
    rw [hnets]
    decide
  · change 0 + (input.instanceCount + 0) < idLimit
    rw [hinsts]
    decide

end Ranged

/-! ## Listings -/

/-- Every module of an atomized program lists the atoms of its declarations in their order.  Of
several declarations with the same identifier the last one counts. -/
theorem Design.atomize_lists_declared {design : Design} {alloc : Allocator} {maxAtoms : Int}
    {p : Program} (h : (design.atomize alloc maxAtoms).value = some p)
    (hfits : design.Fits alloc maxAtoms) {id : Ident} {m : Module} (hm : p.modules[id]? = some m) :
    ∃ decl, design.modules.reverse.find? (·.id == id) = some decl ∧
      m.ListsDeclared ⟨design.expressions, decl, maxAtoms⟩ := by
  obtain ⟨hclean, hsound, rfl⟩ := atomize_eq_some_iff.mp h
  have hget : (design.programOf
      (atomizeModules design maxAtoms alloc design.modules).value.1).modules[id]? = some m := hm
  have hlast := hget
  rw [programOf, IdMap.getElem?_ofItems] at hlast
  have hall := forall₂_listsDeclared hclean hfits.nets hfits.instances
  rcases forall₂_find? (List.forall₂_reverse_iff.mpr hall) (p := (·.id == id)) (q := (·.id == id))
      (fun decl m' h => by rw [h.1]) with ⟨_, hnone⟩ | ⟨decl, m', hdecl, hm', _, hlists⟩
  · rw [hnone] at hlast
    cases hlast
  · obtain rfl := Option.some.inj (hm'.symm.trans hlast)
    exact ⟨decl, hdecl, hlists (hsound.modules id _ hget).ports_nodup⟩

theorem Design.atomize_lists_declared_ranged :
    (Ranged.design.atomize {} 0).value =
        some (Ranged.design.programOf [Ranged.final.modul]).ordered ∧
      Ranged.design.Fits {} 0 ∧ Ranged.final.modul.portList = ["d1", "d0"] ∧
      ∃ decl, Ranged.design.modules.reverse.find? (·.id == Ranged.decl.id) = some decl ∧
        Ranged.final.modul.ListsDeclared ⟨Ranged.design.expressions, decl, 0⟩ :=
  ⟨Ranged.atomize_eq, Ranged.fits, rfl,
    atomize_lists_declared Ranged.atomize_eq Ranged.fits Ranged.getElem?_modules⟩

end Netlist
