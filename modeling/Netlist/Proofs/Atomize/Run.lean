import Netlist.Proofs.Atomize.Clean

/-!
# The events of a clean run

What a module declares says which events a clean run of it has.  Nothing that is declared is
left out, because an expression that stands for nothing is an error.  The lemmas go
from one connection up to the whole module (`clean_atomizeAll`).
-/

namespace Netlist

open Atomizing

/-! ## Expressions -/

section Reports

variable {P : Diagnostic → Prop}

/-- What is reported about an expression are problems at its place or at parts of it. -/
theorem Pattern.reports_expand {o : Options} (hP : ∀ p : Problem, P (p.at_ o.span))
    (hpart : ∀ (p : Problem) (start stop : Nat), P (p.at_ (o.readSpan.slice start stop)))
    (raw : String) : (expand o raw).Reports P := by
  have hparse : (parse o raw).Reports P := by
    intro d hd
    obtain ⟨f, _, rfl⟩ := List.mem_map.mp hd
    exact hpart _ _ _
  refine hparse.bind fun e => ?_
  cases e with
  | none => exact Logged.reports_pure _
  | some e =>
      dsimp only [expandParsed]
      split
      · exact List.forall_mem_singleton.mpr (hP _)
      · split
        · exact Logged.reports_pure _
        · exact List.forall_mem_singleton.mpr (hP _)

theorem Pattern.reports_expandEndpoint {o : Options} (hP : ∀ p : Problem, P (p.at_ o.span))
    (hpart : ∀ (p : Problem) (start stop : Nat), P (p.at_ (o.readSpan.slice start stop)))
    (raw : String) : (expandEndpoint o raw).Reports P := by
  refine (reports_expand hP hpart raw).bind fun e => ?_
  cases e with
  | none => exact Logged.reports_pure _
  | some e =>
      dsimp only
      split
      · exact Logged.reports_pure _
      · exact (Logged.reports_report.mpr (hP _)).bind fun _ => Logged.reports_pure _

theorem Axis.reports_bindOrPair {span : Span} (hP : ∀ p : Problem, P (p.at_ span))
    (net endpoint : Pattern.Expansion) : (bindOrPair net endpoint span).Reports P := by
  unfold bindOrPair
  split
  · exact Logged.reports_pure _
  · split
    · unfold bind
      split
      · exact Logged.reports_pure _
      · intro d hd
        obtain ⟨p, _, rfl⟩ := List.mem_map.mp hd
        exact hP p
    · split
      · exact List.forall_mem_singleton.mpr (hP _)
      · exact Logged.reports_pure _

end Reports

variable {i : AtomizeInput} {id : Ident}

theorem AtomizeInput.hasErrors_of_expression
    (h : (i.expression id).value = none) : (i.expression id).hasErrors = true := by
  rw [expression] at h ⊢
  split at h
  · cases h
  · rfl

theorem AtomizeInput.expression_eq_some {e : DesignExpression}
    (h : (i.expression id).value = some e) : i.expressions[id]? = some e := by
  rw [expression] at h
  split at h
  · rename_i heq
    cases h
    exact heq
  · cases h

/-- An expression that is not expanded is reported. -/
theorem AtomizeInput.hasErrors_of_expand {noSplice : Bool}
    (h : (i.expand id noSplice).value = none) : (i.expand id noSplice).hasErrors = true := by
  rw [expand, Logged.value_bind] at h
  rw [expand, Logged.hasErrors_bind, Bool.or_eq_true]
  cases he : (i.expression id).value with
  | none => exact Or.inl (hasErrors_of_expression he)
  | some e =>
      rw [he] at h
      right
      simp only [Logged.value_bind, Logged.value_pure, Option.map_eq_none_iff] at h
      simp only [Logged.hasErrors_bind, Logged.hasErrors_pure, Bool.or_false]
      exact Pattern.hasErrors_of_expand h

/-- What is expanded is the text of an expression of the design. -/
theorem AtomizeInput.expand_eq_some {noSplice : Bool} {e : DesignExpression} {x : Pattern.Expansion}
    (h : (i.expand id noSplice).value = some (e, x)) :
    i.expressions[id]? = some e ∧ (Pattern.expand (i.options e noSplice) e.raw).value = some x := by
  rw [expand, Logged.value_bind] at h
  cases he : (i.expression id).value with
  | none =>
      rw [he] at h
      cases h
  | some e' =>
      rw [he] at h
      simp only [Logged.value_bind, Logged.value_pure, Option.map_eq_some_iff] at h
      obtain ⟨y, hy, heq⟩ := h
      cases heq
      exact ⟨expression_eq_some he, hy⟩

namespace Atomizing

variable {s s' : Atomizing} {i : AtomizeInput} {u : Unit} {x : Pattern.Expansion}
  {e : DesignExpression}

/-- Something that was looked for without errors was found. -/
theorem exists_of_clean_logged {α : Type} {x : Logged (Option α)}
    (hx : x.value = none → x.hasErrors = true) {a : Option α}
    (h : Clean (Atomize.logged x) s a s') : s = s' ∧ ∃ b, some b = a ∧ x.value = some b := by
  obtain ⟨rfl, rfl, he⟩ := clean_logged.mp h
  cases hv : x.value with
  | none =>
      rw [hx hv] at he
      cases he
  | some b => exact ⟨rfl, b, rfl, rfl⟩

/-! ## The name and the instances -/

/-- Rounds of one event each. -/
theorem exists_map_of_forall₂ {α β γ : Type} {R : α → γ → Prop} {g : γ → β} {l : List α}
    {ess : List (List β)} (h : List.Forall₂ (fun a es => ∃ c, R a c ∧ es = [g c]) l ess) :
    ∃ cs : List γ, List.Forall₂ R l cs ∧ ess.flatten = cs.map g := by
  induction h with
  | nil => exact ⟨[], .nil, rfl⟩
  | cons hes _ ih =>
      obtain ⟨c, hc, rfl⟩ := hes
      obtain ⟨cs, hcs, hflat⟩ := ih
      exact ⟨c :: cs, .cons hc hcs, by rw [List.flatten_cons, hflat, List.map_cons]; rfl⟩

/-- Without errors, the name is the only event. -/
theorem clean_atomizeName (h : Clean (atomizeName i) s u s') : ∃ name, Trace s [.name name] s' := by
  obtain ⟨r, s₁, h₁, h⟩ := clean_bind.mp h
  obtain ⟨rfl, ⟨e, x⟩, rfl, _⟩ := exists_of_clean_logged AtomizeInput.hasErrors_of_expand h₁
  simp only at h
  split at h
  · rename_i a _
    obtain rfl := clean_modify.mp h
    exact ⟨a.literal, (Step.name _ _).trace⟩
  · exact absurd h (not_clean_report rfl)

/-- The instance that an atom becomes. -/
def instanceOf (ref : Ref) (e : DesignExpression) (x : Pattern.Expansion) (a : Pattern.Atom)
    (params : List Param) (id : Ident) : Instance :=
  { id := id, name := a.literal, ref := ref, params := if params.isEmpty then none else some params,
    origin := originOf e x a, span := e.span }

theorem clean_addInstance {ref : Ref} {a : Pattern.Atom} {params : List Param}
    (h : Clean (addInstance ref e x a params) s u s') :
    ∃ inst : Instance, inst = instanceOf ref e x a params inst.id ∧ Trace s [.inst inst] s' := by
  cases h.value_eq
  exact ⟨instanceOf ref e x a params (s.alloc.next .instance_).1, rfl, (Step.inst s _ rfl).trace⟩

/-- The events of an instance declaration: each of its atoms becomes an instance, with its row of
the parameters. -/
def InstanceEvents (i : AtomizeInput) (d : DesignInstance) (es : List Event) : Prop :=
  ∃ e x, ∃ insts : List Instance, (i.expand d.expression false).value = some (e, x) ∧
    (paramValues i e x.length d.params).hasErrors = false ∧
    List.Forall₂ (fun q inst => inst = instanceOf d.ref e x q.1 q.2 inst.id)
      (x.atoms.zip (paramRows x.length (paramValues i e x.length d.params).value)) insts ∧
    es = insts.map .inst

/-- Without errors, one instance is made for each atom. -/
theorem clean_atomizeInstance {d : DesignInstance} (h : Clean (atomizeInstance i d) s u s') :
    ∃ es, InstanceEvents i d es ∧ Trace s es s' := by
  obtain ⟨r, s₁, h₁, h⟩ := clean_bind.mp h
  obtain ⟨rfl, ⟨e, x⟩, rfl, hx⟩ := exists_of_clean_logged AtomizeInput.hasErrors_of_expand h₁
  dsimp only at h
  obtain ⟨values, s₂, h₂, h⟩ := clean_bind.mp h
  obtain ⟨rfl, rfl, hvalues⟩ := clean_logged.mp h₂
  obtain ⟨_, s₃, h₃, h⟩ := clean_bind.mp h
  obtain ⟨_, rfl⟩ := clean_pure.mp h
  obtain ⟨ess, hess, htrace⟩ := Clean.forIn
    (P := fun q es => ∃ inst : Instance, inst = instanceOf d.ref e x q.1 q.2 inst.id ∧
      es = [Event.inst inst])
    (fun q _ s r s' hq => by
      obtain ⟨rfl, hadd⟩ := clean_yield.mp hq
      obtain ⟨inst, hinst, ht⟩ := clean_addInstance hadd
      exact ⟨rfl, _, ⟨inst, hinst, rfl⟩, ht⟩) h₃
  obtain ⟨insts, hinsts, hflat⟩ := exists_map_of_forall₂ hess
  exact ⟨_, ⟨e, x, insts, hx, hvalues, hinsts, hflat⟩, htrace⟩

/-! ## Nets and endpoints -/

/-- The net that an atom becomes. -/
def netOf (isPort : Bool) (e : DesignExpression) (x : Pattern.Expansion) (a : Pattern.Atom)
    (id : Ident) : Net :=
  { id := id, name := a.literal, isPort := isPort, origin := originOf e x a, span := e.span }

theorem clean_addNet {isPort : Bool}
    {a : Pattern.Atom} {net : Net} (h : Clean (addNet isPort e x a) s net s') :
    net = netOf isPort e x a net.id ∧ Trace s [.net net] s' := by
  cases h.value_eq
  exact ⟨rfl, (Step.net s _ rfl).trace⟩

/-- A binding is one endpoint more. -/
theorem clean_bindPort {net inst : Ident} {port : String} {span : Span}
    {isDefault isSuppressed : Bool}
    (h : Clean (bindPort net inst port span isDefault isSuppressed) s u s') :
    s' = s.withEndpoint
      ⟨⟨(s.alloc.next .endpoint).1, net, inst, port, isDefault, span⟩, isSuppressed⟩ := by
  cases h.value_eq
  rfl

theorem clean_connect {isSuppressed : Bool} {a : Pattern.EndpointAtom}
    {net : Net} (h : Clean (connect e isSuppressed a net) s u s') :
    Trace s [.connect a.inst a.port net isSuppressed] s' := by
  obtain ⟨s₀, s₁, h₁, h⟩ := clean_bind.mp h
  obtain ⟨rfl, rfl⟩ := clean_get.mp h₁
  cases hinst : s.instances[a.inst]? with
  | none =>
      simp only [hinst] at h
      exact absurd h (not_clean_report rfl)
  | some inst =>
      simp only [hinst] at h
      cases hb : s.bound[(inst.id, a.port)]? with
      | none =>
          simp only [hb] at h
          obtain rfl := clean_bindPort h
          exact (Step.connect s a.inst net
            ⟨⟨(s.alloc.next .endpoint).1, net.id, inst.id, a.port, false, e.span⟩, isSuppressed⟩
            hinst hb rfl rfl rfl rfl).trace
      | some b =>
          simp only [hb] at h
          split at h
          · exact absurd h (not_clean_report rfl)
          · rename_i hsame
            obtain ⟨_, rfl⟩ := clean_pure.mp h
            exact (Step.again s a.inst a.port net isSuppressed hinst hb
              (by simpa using hsame)).trace

/-- The events of an endpoint expression under a net declaration: each of its atoms is connected
to the net that the binding gives it. -/
def EndpointEvents (i : AtomizeInput) (x : Pattern.Expansion) (nets : List Net)
    (d : DesignEndpoint) (es : List Event) : Prop :=
  ∃ e y atoms b, i.expressions[d.expression]? = some e ∧
    (Pattern.expandEndpoint (i.options e false) e.raw).value = some (y, atoms) ∧
    (Axis.bindOrPair x y e.span).value = some b ∧
    es = (atoms.zip b.netIndex).flatMap fun q =>
      ((nets[q.2]?).map fun net => Event.connect q.1.inst q.1.port net d.isSuppressed).toList

theorem clean_atomizeEndpoint {nets : List Net} {d : DesignEndpoint}
    (h : Clean (atomizeEndpoint i x nets.toArray d) s u s') :
    ∃ es, EndpointEvents i x nets d es ∧ Trace s es s' := by
  obtain ⟨r, s₁, h₁, h⟩ := clean_bind.mp h
  obtain ⟨rfl, e, rfl, he⟩ := exists_of_clean_logged AtomizeInput.hasErrors_of_expression h₁
  dsimp only at h
  obtain ⟨r, s₂, h₂, h⟩ := clean_bind.mp h
  obtain ⟨rfl, ⟨y, atoms⟩, rfl, hy⟩ :=
    exists_of_clean_logged Pattern.hasErrors_of_expandEndpoint h₂
  dsimp only at h
  obtain ⟨r, s₃, h₃, h⟩ := clean_bind.mp h
  obtain ⟨rfl, b, rfl, hb⟩ := exists_of_clean_logged Axis.hasErrors_of_bindOrPair h₃
  dsimp only at h
  obtain ⟨_, s₄, h₄, h⟩ := clean_bind.mp h
  obtain ⟨_, rfl⟩ := clean_pure.mp h
  obtain ⟨ess, hess, htrace⟩ := Clean.forIn
    (P := fun q es => es = ((nets[q.2]?).map fun net =>
      Event.connect q.1.inst q.1.port net d.isSuppressed).toList)
    (fun q _ s r s' hq => by
      obtain ⟨a, k⟩ := q
      simp only [List.getElem?_toArray] at hq
      cases hk : nets[k]? with
      | none =>
          simp only [hk] at hq
          obtain ⟨rfl, rfl⟩ := clean_pure.mp hq
          exact ⟨rfl, [], by simp, .nil s⟩
      | some net =>
          simp only [hk] at hq
          obtain ⟨rfl, hconnect⟩ := clean_yield.mp hq
          exact ⟨rfl, _, by simp, clean_connect hconnect⟩) h₄
  rw [eq_map_of_forall₂ hess, ← List.flatMap_def] at htrace
  exact ⟨_, ⟨e, y, atoms, b, AtomizeInput.expression_eq_some he, hy, hb, rfl⟩, htrace⟩

/-- The events of a net declaration: its nets are made, they become ports if they are declared
so, and the endpoint expressions follow. -/
def NetEvents (i : AtomizeInput) (d : DesignNet) (es : List Event) : Prop :=
  ∃ e x nets ess, (i.expand d.expression d.isPort).value = some (e, x) ∧
    List.Forall₂ (fun (a : Pattern.Atom) (n : Net) => n = netOf d.isPort e x a n.id) x.atoms nets ∧
    List.Forall₂ (EndpointEvents i x nets) d.endpoints ess ∧
    es = nets.map .net ++
      ((if d.isPort then [.ports (nets.map (·.name))] else []) ++ ess.flatten)

/-- Without errors, one net is made for each atom, and its endpoints are bound. -/
theorem clean_atomizeNet {d : DesignNet}
    (h : Clean (atomizeNet i d) s u s') : ∃ es, NetEvents i d es ∧ Trace s es s' := by
  obtain ⟨r, s₁, h₁, h⟩ := clean_bind.mp h
  obtain ⟨rfl, ⟨e, x⟩, rfl, hx⟩ := exists_of_clean_logged AtomizeInput.hasErrors_of_expand h₁
  dsimp only at h
  obtain ⟨nets, s₂, h₂, h⟩ := clean_bind.mp h
  obtain ⟨hnames, hnets⟩ := Clean.mapM
    (P := fun (a : Pattern.Atom) (n : Net) => n = netOf d.isPort e x a n.id) (g := Event.net)
    (fun a _ s n s' ha => clean_addNet ha) h₂
  have hloop : ∀ {s s' u}, Clean (do
      for ep in d.endpoints do
        atomizeEndpoint i x nets.toArray ep) s u s' →
      ∃ ess, List.Forall₂ (EndpointEvents i x nets) d.endpoints ess ∧ Trace s ess.flatten s' := by
    intro s s' u h
    obtain ⟨_, s₃, h₃, h⟩ := clean_bind.mp h
    obtain ⟨_, rfl⟩ := clean_pure.mp h
    refine Clean.forIn (fun ep _ s r s' hep => ?_) h₃
    obtain ⟨rfl, hone⟩ := clean_yield.mp hep
    exact ⟨rfl, clean_atomizeEndpoint hone⟩
  split at h
  · rename_i hport
    obtain ⟨_, s₃, h₃, h⟩ := clean_bind.mp h
    obtain rfl := clean_modify.mp h₃
    obtain ⟨ess, hess, htrace⟩ := hloop h
    refine ⟨_, ⟨e, x, nets, ess, hx, hnames, hess, rfl⟩, hnets.append ?_⟩
    rw [if_pos hport]
    exact (Step.ports s₂ _).trace.append htrace
  · rename_i hport
    obtain ⟨ess, hess, htrace⟩ := hloop h
    refine ⟨_, ⟨e, x, nets, ess, hx, hnames, hess, rfl⟩, hnets.append ?_⟩
    rw [if_neg hport]
    exact htrace

/-! ## Default bindings -/

/-- A default binding with its net, which one of the names known so far leads to. -/
structure Resolves (i : AtomizeInput) (s : Atomizing) (definition : Ident) (b : DesignBinding)
    (r : ResolvedDefault) : Prop where
  definition_eq : r.definition = definition
  port_eq : r.port = b.port
  span_eq : r.span = b.span
  net_named : ∃ e x a, (i.expand b.net true).value = some (e, x) ∧ x.atoms = [a] ∧
    s.nets[a.literal]? = some r.net

/-- Without errors, a default binding leads to one net that exists. -/
theorem clean_defaultNet {b : DesignBinding}
    {net : Option Net} (h : Clean (defaultNet i b) s net s') :
    s = s' ∧ ∃ n e x a, net = some n ∧ (i.expand b.net true).value = some (e, x) ∧
      x.atoms = [a] ∧ s.nets[a.literal]? = some n := by
  obtain ⟨r, s₁, h₁, h⟩ := clean_bind.mp h
  obtain ⟨rfl, ⟨e, x⟩, rfl, hx⟩ := exists_of_clean_logged AtomizeInput.hasErrors_of_expand h₁
  dsimp only at h
  split at h
  · rename_i a hatoms
    obtain ⟨s₀, s₂, h₂, h⟩ := clean_bind.mp h
    obtain ⟨rfl, rfl⟩ := clean_get.mp h₂
    split at h
    · rename_i n hn
      obtain ⟨rfl, rfl⟩ := clean_pure.mp h
      exact ⟨rfl, n, e, x, a, rfl, hx, hatoms, hn⟩
    · obtain ⟨_, s₃, h₃, _⟩ := clean_bind.mp h
      exact absurd h₃ (not_clean_report rfl)
  · obtain ⟨_, s₃, h₃, _⟩ := clean_bind.mp h
    exact absurd h₃ (not_clean_report rfl)

/-- Bindings are resolved one by one, and nothing is changed. -/
theorem clean_resolveBindings {definition : Ident} {s : Atomizing} :
    ∀ {bs : List DesignBinding} {rs : List ResolvedDefault} {s' : Atomizing},
      Clean (resolveBindings i definition bs) s rs s' →
      s = s' ∧ List.Forall₂ (Resolves i s definition) bs rs
  | [], rs, s', h => by
      obtain ⟨rfl, rfl⟩ := clean_pure.mp h
      exact ⟨rfl, .nil⟩
  | b :: bs, rs, s', h => by
      obtain ⟨net, s₁, h₁, h⟩ := clean_bind.mp h
      obtain ⟨rfl, n, e, x, a, rfl, hx, hatoms, hn⟩ := clean_defaultNet h₁
      obtain ⟨more, s₂, h₂, h⟩ := clean_bind.mp h
      obtain ⟨rfl, hmore⟩ := clean_resolveBindings h₂
      obtain ⟨rfl, rfl⟩ := clean_pure.mp h
      exact ⟨rfl, .cons ⟨rfl, rfl, rfl, e, x, a, hx, hatoms, hn⟩ hmore⟩

theorem clean_applyDefault {inst : Instance} {d : ResolvedDefault}
    (h : Clean (applyDefault inst d) s u s') : Trace s [.applyDefault inst d] s' := by
  obtain ⟨s₀, s₁, h₁, h⟩ := clean_bind.mp h
  obtain ⟨rfl, rfl⟩ := clean_get.mp h₁
  cases hb : s.bound[(inst.id, d.port)]? with
  | none =>
      simp only [hb] at h
      obtain rfl := clean_bindPort h
      exact (Step.applyDefault s inst d
        ⟨⟨(s.alloc.next .endpoint).1, d.net.id, inst.id, d.port, true, d.span⟩, false⟩
        hb rfl rfl rfl rfl rfl rfl).trace
  | some b =>
      simp only [hb] at h
      split at h
      · obtain ⟨rfl, _⟩ := clean_report.mp h
        exact (Step.overridden s inst d hb).trace
      · obtain ⟨_, rfl⟩ := clean_pure.mp h
        exact (Step.overridden s inst d hb).trace

/-- The default bindings that meet the instances: for each instance those of its definition. -/
def defaultPairs (made : List Instance) (defaults : List ResolvedDefault) :
    List (Instance × ResolvedDefault) :=
  made.reverse.flatMap fun inst =>
    (defaults.filter fun d => d.definition == inst.ref.id).map fun d => (inst, d)

theorem flatMap_ite {α β : Type} (p : α → Bool) (g : α → List β) : ∀ l : List α,
    (l.flatMap fun a => if p a then g a else []) = (l.filter p).flatMap g
  | [] => rfl
  | a :: l => by
      rw [List.flatMap_cons, flatMap_ite p g l, List.filter_cons]
      split <;> rfl

/-- Applies the default bindings of its definition to an instance. -/
def applyTo (inst : Instance) (defaults : List ResolvedDefault) : Atomize PUnit :=
  forIn defaults PUnit.unit fun d _ =>
    if d.definition == inst.ref.id then do
      applyDefault inst d
      pure (.yield PUnit.unit)
    else pure (.yield PUnit.unit)

/-- An instance gets the defaults of its own definition. -/
theorem clean_applyTo {inst : Instance} {defaults : List ResolvedDefault}
    {u : PUnit} (h : Clean (applyTo inst defaults) s u s') :
    Trace s (((defaults.filter fun d => d.definition == inst.ref.id).map fun d =>
      (inst, d)).map fun q => .applyDefault q.1 q.2) s' := by
  obtain ⟨ess, hess, htrace⟩ := Clean.forIn
    (P := fun d es => es = if (d.definition == inst.ref.id) = true then
      [Event.applyDefault inst d] else [])
    (fun d _ s r s' hd => by
      split at hd
      · rename_i hof
        obtain ⟨rfl, hone⟩ := clean_yield.mp hd
        exact ⟨rfl, _, (if_pos hof).symm, clean_applyDefault hone⟩
      · rename_i hof
        obtain ⟨rfl, rfl⟩ := clean_pure.mp hd
        exact ⟨rfl, _, (if_neg hof).symm, .nil s⟩) h
  rw [eq_map_of_forall₂ hess, ← List.flatMap_def,
    flatMap_ite (fun d : ResolvedDefault => d.definition == inst.ref.id),
    ← List.map_eq_flatMap] at htrace
  rw [List.map_map]
  exact htrace

/-- Looks up the nets of all default bindings. -/
def resolveAll (i : AtomizeInput) : Atomize (List (List ResolvedDefault)) :=
  i.decl.defaults.mapM fun d => resolveBindings i d.ref.id d.bindings

theorem clean_resolveAll
    {resolved : List (List ResolvedDefault)} (h : Clean (resolveAll i) s resolved s') :
    s = s' ∧ List.Forall₂ (fun (d : DesignDefault) rs =>
      List.Forall₂ (Resolves i s d.ref.id) d.bindings rs) i.decl.defaults resolved :=
  Clean.mapM_of_eq (f := fun d : DesignDefault => resolveBindings i d.ref.id d.bindings)
    (fun _ _ _ _ hd => clean_resolveBindings hd) h

/-- Applies default bindings to instances, one instance after another. -/
def applyAll (insts : List Instance) (defaults : List ResolvedDefault) : Atomize Unit := do
  for inst in insts do
    applyTo inst defaults

theorem clean_applyAll {made : List Instance} {defaults : List ResolvedDefault}
    (h : Clean (applyAll made.reverse defaults) s u s') :
    Trace s ((defaultPairs made defaults).map fun q => .applyDefault q.1 q.2) s' := by
  obtain ⟨_, s₁, h₁, h⟩ := clean_bind.mp h
  obtain ⟨_, rfl⟩ := clean_pure.mp h
  obtain ⟨ess, hess, htrace⟩ := Clean.forIn
    (P := fun inst es => es = ((defaults.filter fun d =>
      d.definition == inst.ref.id).map fun d => (inst, d)).map fun q => .applyDefault q.1 q.2)
    (fun inst _ s r s' hinst => by
      obtain ⟨rfl, hone⟩ := clean_yield.mp hinst
      exact ⟨rfl, _, rfl, clean_applyTo hone⟩) h₁
  rw [eq_map_of_forall₂ hess, ← List.flatMap_def] at htrace
  rw [defaultPairs, List.map_flatMap]
  exact htrace

/-- The nets are looked up before any default binding is applied. -/
theorem clean_applyDefaults
    (h : Clean (applyDefaults i) s u s') : ∃ resolved : List (List ResolvedDefault),
      Clean (resolveAll i) s resolved s ∧
      Clean (applyAll s.made.reverse resolved.flatten) s u s' := by
  obtain ⟨resolved, s₁, h₁, h⟩ := clean_bind.mp h
  obtain ⟨rfl, _⟩ := clean_resolveAll h₁
  obtain ⟨s₀, s₂, h₂, h⟩ := clean_bind.mp h
  obtain ⟨rfl, rfl⟩ := clean_get.mp h₂
  exact ⟨resolved, h₁, h⟩

/-! ## The whole module -/

/-- The events before the default bindings: the name, the instances and the nets with their
endpoints. -/
structure DeclaredEvents (i : AtomizeInput) (iss ess : List (List Event)) (es : List Event) :
    Prop where
  /-- The instances, one declaration after another. -/
  instances : List.Forall₂ (InstanceEvents i) i.decl.instances iss
  /-- The nets, one declaration after another. -/
  nets : List.Forall₂ (NetEvents i) i.decl.nets ess
  /-- All of them, after the name. -/
  eq_append : ∃ name, es = .name name :: (iss.flatten ++ ess.flatten)

/-- Expands everything in a module but its default bindings. -/
def declareAll (i : AtomizeInput) : Atomize Unit := do
  atomizeName i
  for d in i.decl.instances do
    atomizeInstance i d
  for d in i.decl.nets do
    atomizeNet i d

theorem atomizeAll_eq_bind (i : AtomizeInput) :
    atomizeAll i = declareAll i >>= fun _ => applyDefaults i := by
  simp only [atomizeAll, declareAll, bind_assoc, pure_bind]

/-- Without errors, all declarations leave their events. -/
theorem clean_declareAll (h : Clean (declareAll i) s u s') :
    ∃ iss ess es, DeclaredEvents i iss ess es ∧ Trace s es s' := by
  obtain ⟨_, s₁, h₁, h⟩ := clean_bind.mp h
  obtain ⟨name, hname⟩ := clean_atomizeName h₁
  obtain ⟨_, s₂, h₂, h⟩ := clean_bind.mp h
  obtain ⟨iss, hiss, hinsts⟩ := Clean.forIn (P := InstanceEvents i)
    (fun d _ s r s' hd => by
      obtain ⟨rfl, hone⟩ := clean_yield.mp hd
      exact ⟨rfl, clean_atomizeInstance hone⟩) h₂
  obtain ⟨_, s₃, h₃, h⟩ := clean_bind.mp h
  obtain ⟨nss, hnss, hnets⟩ := Clean.forIn (P := NetEvents i)
    (fun d _ s r s' hd => by
      obtain ⟨rfl, hone⟩ := clean_yield.mp hd
      exact ⟨rfl, clean_atomizeNet hone⟩) h₃
  obtain ⟨_, rfl⟩ := clean_pure.mp h
  exact ⟨iss, nss, _, ⟨hiss, hnss, name, rfl⟩, hname.append (hinsts.append hnets)⟩

/-- A clean run makes what is declared and then applies the default bindings. -/
theorem clean_atomizeAll
    (h : Clean (atomizeAll i) s u s') : ∃ s₁ iss ess es, ∃ resolved : List (List ResolvedDefault),
      DeclaredEvents i iss ess es ∧ Trace s es s₁ ∧
      List.Forall₂ (fun (d : DesignDefault) rs =>
        List.Forall₂ (Resolves i s₁ d.ref.id) d.bindings rs) i.decl.defaults resolved ∧
      Trace s₁ ((defaultPairs s₁.made resolved.flatten).map fun q => .applyDefault q.1 q.2) s' := by
  rw [atomizeAll_eq_bind] at h
  obtain ⟨_, s₁, h₁, h⟩ := clean_bind.mp h
  obtain ⟨iss, ess, es, hdecl, hfirst⟩ := clean_declareAll h₁
  obtain ⟨resolved, hresolve, hlast⟩ := clean_applyDefaults h
  exact ⟨s₁, iss, ess, es, resolved, hdecl, hfirst, (clean_resolveAll hresolve).2,
    clean_applyAll hlast⟩

end Atomizing

end Netlist
