import Netlist.Proofs.Atomize.Binding

/-!
# Overridden default bindings

A default binding that meets a port of an instance which goes to another net is overridden, and
this is reported unless it is marked as intended (`Module.Meeting`).  The marker that counts is that
of the first endpoint expression for the port, and a port that only default bindings speak of goes
to the net of the first of them.  The other default bindings for it are then reported as overridden.
-/

namespace Netlist

open Pattern (Expansion EndpointAtom)
open Atomizing
open Logged (Discipline)
open Logged.Discipline (meets_pure meets_get meets_modify meets_mapM meets_forIn)

/-! ## Meetings of default bindings and instances -/

/-- The net that a default binding names: the first one of that name. -/
def AtomizeInput.DefaultNet (i : AtomizeInput) (nets : List Net) (b : DesignBinding)
    (net : Net) : Prop :=
  ∃ e x a, (i.expand b.net true).value = some (e, x) ∧ x.atoms = [a] ∧
    nets.find? (·.name == a.literal) = some net

/-- A default binding for the net `net` meets an instance whose port has the endpoint `e`, with the
report `r`. -/
structure Module.Meeting (m : Module) (i : AtomizeInput) (made : List Instance) (nets : List Net)
    (inst : Instance) (b : DesignBinding) (e : Endpoint) (net : Net) (r : Option Diagnostic) :
    Prop where
  /-- The endpoint is the only one of the port. -/
  endpoint : ∀ (id : Ident) (e' : Endpoint), m.endpoints[id]? = some e' ∧ e'.inst = inst.id ∧
    e'.port = b.port ↔ id = e.id ∧ e' = e
  /-- The net is that of the default binding. -/
  net_named : i.DefaultNet nets b net
  /-- The endpoint is a default where no endpoint expression names the port. -/
  isDefault_iff : e.isDefault = true ↔ i.marks made inst.id b.port = []
  /-- It goes to the net of the first default binding for the port then. -/
  first : e.isDefault = true → ∃ b₁ net₁, (i.defaultsOf inst.ref.id).find? (·.port == b.port) =
    some b₁ ∧ i.DefaultNet nets b₁ net₁ ∧ e.net = net₁.id
  /-- The override is reported unless the first endpoint expression for the port has a marker. -/
  report_eq : r = if e.net = net.id ∨ (i.marks made inst.id b.port).head? = some true then none
    else some ⟨.warning, .defaultOverride, e.span, .text (inst.name ++ "." ++ b.port ++
      " is bound to " ++ Text.quoted (netName m e.net) ++ ", overriding the default " ++
      Text.quoted net.name), [⟨b.span, .text "default declared here"⟩]⟩

/-- The overrides in a log are those of the meetings of default bindings and instances, one instance
after another.  Where the endpoint expressions for the port agree on the marker, and without any the
default bindings agree on the net, these are the overrides by endpoint expressions without a
marker. -/
structure Module.ReportsOverrides (m : Module) (i : AtomizeInput) (made : List Instance)
    (nets : List Net) (log : List Diagnostic) : Prop where
  made_iff : ∀ inst, inst ∈ made ↔ m.instances[inst.id]? = some inst
  reports : ∃ reports, List.Forall₂ (fun q r => ∃ e net, m.Meeting i made nets q.1 q.2 e net r)
      (made.flatMap fun inst => (i.defaultsOf inst.ref.id).map (Prod.mk inst)) reports ∧
    log.filter (·.code == .defaultOverride) = reports.reduceOption
  agreed : ∀ inst b e net r, m.Meeting i made nets inst b e net r →
    (∀ x ∈ i.marks made inst.id b.port, ∀ y ∈ i.marks made inst.id b.port, x = y) →
    (i.marks made inst.id b.port = [] → ∀ b' ∈ i.defaultsOf inst.ref.id, b'.port = b.port →
      ∀ net', i.DefaultNet nets b' net' → net' = net) →
    (r.isSome = true ↔ i.marks made inst.id b.port ≠ [] ∧ e.net ≠ net.id ∧
      true ∉ i.marks made inst.id b.port)

/-! ## Steps that report no override -/

/-- What the steps before the last ones keep to. -/
def noOverride : Discipline Atomizing where
  Report d := d.code ≠ .defaultOverride
  Inv _ := True
  Grows _ _ := True
  refl _ := trivial
  trans _ _ := trivial

theorem Pattern.Problem.code_ne_override (p : Problem) (span : Span) :
    (p.at_ span).code ≠ .defaultOverride := by
  cases p <;> simp only [at_, code] <;> decide

theorem Axis.Problem.code_ne_override (p : Problem) (span : Span) :
    (p.at_ span).code ≠ .defaultOverride := by
  cases p <;> simp only [at_, code, Diagnostic.error] <;> decide

/-- The warning has a code of its own. -/
theorem AtomizeProblem.code_ne_override {p : AtomizeProblem} (span : Span)
    (hp : ∀ inst port net defaultNet declared,
      p ≠ defaultOverride inst port net defaultNet declared) :
    (p.at_ span).code ≠ .defaultOverride := by
  cases p with
  | defaultOverride => exact absurd rfl (hp _ _ _ _ _)
  | _ =>
      simp only [at_, Diagnostic.error]
      decide

section

variable {i : AtomizeInput} {s : Atomizing}

theorem noOverride_logged {α : Type} {x : Logged α} (h : x.Reports noOverride.Report) :
    noOverride.Meets s (Atomize.logged x) fun _ _ => True :=
  Discipline.meets_logged (Q := fun _ => True) ⟨h, trivial⟩

theorem noOverride_report (span : Span) {p : AtomizeProblem}
    (hp : ∀ inst port net defaultNet declared,
      p ≠ .defaultOverride inst port net defaultNet declared) :
    noOverride.Meets s (Atomize.report span p) fun _ _ => True :=
  noOverride_logged (Logged.reports_report.mpr (AtomizeProblem.code_ne_override span hp))

theorem reports_expression (id : Ident) : (i.expression id).Reports noOverride.Report := by
  rw [AtomizeInput.expression]
  split
  · exact Logged.reports_pure _
  · exact (Logged.reports_report.mpr (AtomizeProblem.code_ne_override _ (by simp))).bind
      fun _ => Logged.reports_pure _

theorem reports_expand (id : Ident) (noSplice : Bool) :
    (i.expand id noSplice).Reports noOverride.Report := by
  refine (reports_expression id).bind fun found => ?_
  cases found with
  | none => exact Logged.reports_pure _
  | some e =>
      exact (Pattern.reports_expand (fun p => p.code_ne_override _)
        (fun p _ _ => p.code_ne_override _) e.raw).bind fun _ => Logged.reports_pure _

theorem reports_paramValues (inst : DesignExpression) (count : Nat) (params : List DesignParam) :
    (paramValues i inst count params).Reports noOverride.Report := by
  induction params with
  | nil => exact Logged.reports_pure _
  | cons p params ih =>
      have hrest : ∀ own : List (String × List String), (do
          return own ++ (← paramValues i inst count params)).Reports noOverride.Report :=
        fun own => ih.bind fun _ => Logged.reports_pure _
      refine (reports_expand p.expression false).bind fun found => ?_
      cases found with
      | none => exact (Logged.reports_pure _).bind hrest
      | some q =>
          dsimp only
          split
          · exact (Logged.reports_report.mpr (AtomizeProblem.code_ne_override _ (by simp))).bind
              fun _ => (Logged.reports_pure _).bind hrest
          · exact (Logged.reports_pure _).bind hrest

theorem noOverride_atomizeName : noOverride.Meets s (atomizeName i) fun _ _ => True := by
  refine (noOverride_logged (reports_expand _ _)).bind fun found s₁ _ _ => ?_
  cases found with
  | none => exact meets_pure trivial
  | some q =>
      dsimp only
      split
      · exact meets_modify (fun _ => trivial) trivial trivial
      · exact noOverride_report _ (by simp)

theorem noOverride_atomizeInstance (d : DesignInstance) :
    noOverride.Meets s (atomizeInstance i d) fun _ _ => True := by
  refine (noOverride_logged (reports_expand _ _)).bind fun found s₁ _ _ => ?_
  cases found with
  | none => exact meets_pure trivial
  | some q =>
      refine (noOverride_logged (reports_paramValues _ _ _)).bind fun values s₂ _ _ => ?_
      refine Discipline.Meets.bind (Q := fun _ _ => True) (meets_forIn fun q _ s₃ _ => ?_)
        fun _ _ _ _ => meets_pure trivial
      exact fun _ => ⟨Logged.reports_pure _, trivial, trivial, trivial⟩

theorem noOverride_connect (e : DesignExpression) (isSuppressed : Bool) (a : EndpointAtom)
    (net : Net) : noOverride.Meets s (connect e isSuppressed a net) fun _ _ => True := by
  refine meets_get ?_
  split
  · exact noOverride_report _ (by simp)
  · split
    · exact fun _ => ⟨Logged.reports_pure _, trivial, trivial, trivial⟩
    · split
      · exact noOverride_report _ (by simp)
      · exact meets_pure trivial

theorem noOverride_atomizeEndpoint (x : Expansion) (nets : Array Net) (d : DesignEndpoint) :
    noOverride.Meets s (atomizeEndpoint i x nets d) fun _ _ => True := by
  refine (noOverride_logged (reports_expression _)).bind fun found s₁ _ _ => ?_
  cases found with
  | none => exact meets_pure trivial
  | some e =>
      refine (noOverride_logged (Pattern.reports_expandEndpoint (fun p => p.code_ne_override _)
        (fun p _ _ => p.code_ne_override _) e.raw)).bind fun found s₂ _ _ => ?_
      split
      · exact meets_pure trivial
      refine (noOverride_logged (Axis.reports_bindOrPair (fun p => p.code_ne_override _) _ _)).bind
        fun found s₃ _ _ => ?_
      split
      · exact meets_pure trivial
      refine Discipline.Meets.bind (Q := fun _ _ => True) (meets_forIn fun q _ s₄ _ => ?_)
        fun _ _ _ _ => meets_pure trivial
      dsimp only
      split
      · exact (noOverride_connect e _ _ _).bind fun _ _ _ _ => meets_pure trivial
      · exact meets_pure trivial

theorem noOverride_atomizeNet (d : DesignNet) :
    noOverride.Meets s (atomizeNet i d) fun _ _ => True := by
  have hendpoints : ∀ (x : Expansion) (nets : List Net) (s : Atomizing), noOverride.Meets s (do
      for ep in d.endpoints do
        atomizeEndpoint i x nets.toArray ep : Atomize Unit) fun _ _ => True := by
    intro x nets s
    refine Discipline.Meets.bind (Q := fun _ _ => True) (meets_forIn fun ep _ s₁ _ => ?_)
      fun _ _ _ _ => meets_pure trivial
    exact (noOverride_atomizeEndpoint _ _ _).bind fun _ _ _ _ => meets_pure trivial
  refine (noOverride_logged (reports_expand _ _)).bind fun found s₁ _ _ => ?_
  cases found with
  | none => exact meets_pure trivial
  | some q =>
      refine Discipline.Meets.bind (meets_mapM (D := noOverride) (Q := fun _ _ => True)
        (fun _ _ _ _ _ => trivial) fun a _ s₂ _ => ?_) fun nets s₂ _ _ => ?_
      · exact fun _ => ⟨Logged.reports_pure _, trivial, trivial, trivial⟩
      · dsimp only
        split
        · exact Discipline.Meets.bind (Q := fun _ _ => True)
            (meets_modify (fun _ => trivial) trivial trivial) fun _ _ _ _ => hendpoints _ _ _
        · exact hendpoints _ _ _

/-- No warning comes from the declarations. -/
theorem noOverride_declareAll : noOverride.Meets s (declareAll i) fun _ _ => True := by
  refine noOverride_atomizeName.bind fun _ _ _ _ => ?_
  refine Discipline.Meets.bind (Q := fun _ _ => True) (meets_forIn fun d _ s₁ _ =>
    (noOverride_atomizeInstance d).bind fun _ _ _ _ => meets_pure trivial) fun _ _ _ _ => ?_
  exact Discipline.Meets.bind (Q := fun _ _ => True) (meets_forIn fun d _ s₁ _ =>
    (noOverride_atomizeNet d).bind fun _ _ _ _ => meets_pure trivial)
    fun _ _ _ _ => meets_pure trivial

theorem noOverride_defaultNet (b : DesignBinding) :
    noOverride.Meets s (defaultNet i b) fun _ _ => True := by
  refine (noOverride_logged (reports_expand _ _)).bind fun found s₁ _ _ => ?_
  cases found with
  | none => exact meets_pure trivial
  | some q =>
      dsimp only
      split
      · refine meets_get ?_
        split
        · exact meets_pure trivial
        · exact (noOverride_report _ (by simp)).bind fun _ _ _ _ => meets_pure trivial
      · exact (noOverride_report _ (by simp)).bind fun _ _ _ _ => meets_pure trivial

theorem noOverride_resolveBindings (definition : Ident) (bs : List DesignBinding) :
    ∀ {s : Atomizing}, noOverride.Meets s (resolveBindings i definition bs) fun _ _ => True := by
  induction bs with
  | nil => exact meets_pure trivial
  | cons b bs ih =>
      exact (noOverride_defaultNet b).bind fun _ _ _ _ => ih.bind fun _ _ _ _ => meets_pure trivial

theorem noOverride_resolveAll : noOverride.Meets s (resolveAll i) fun _ _ => True :=
  (meets_mapM (D := noOverride) (Q := fun _ _ => True) (fun _ _ _ _ _ => trivial)
    fun d _ _ _ => noOverride_resolveBindings d.ref.id d.bindings).mono fun _ _ _ => trivial

end

/-! ## The reports of a run -/

namespace Atomizing

/-- The overrides that are reported. -/
def overrides {α : Type} (x : Logged α) : List Diagnostic :=
  x.log.filter (·.code == .defaultOverride)

/-- A step that does not warn has no warning in its log. -/
theorem overrides_eq_nil {α : Type} {s : Atomizing} {x : Atomize α} {Q : α → Atomizing → Prop}
    (h : noOverride.Meets s x Q) : overrides (x s) = [] :=
  List.filter_eq_nil_iff.mpr fun d hd heq => (h trivial).1 d hd (by simpa using heq)

/-- The warnings of two steps follow each other. -/
theorem overrides_bind {α β : Type} {x : Atomize α} {f : α → Atomize β} {s s₁ : Atomizing} {a : α}
    (h : Clean x s a s₁) : overrides ((x >>= f) s) = overrides (x s) ++ overrides (f a s₁) := by
  have hvalue : (x s).value = (a, s₁) := h.value_eq
  rw [overrides, Logged.log_bind_run, List.filter_append, hvalue]
  rfl

/-- The log of a loop, one round after another.  `P` goes back from the state after a round to the
state before it. -/
theorem log_forIn {β : Type} {body : β → PUnit → Atomize (ForInStep PUnit)}
    {P : Atomizing → Prop} {g : β → List Diagnostic} : ∀ {l : List β} {s s' : Atomizing},
      (∀ a ∈ l, ∀ s r s', Clean (body a ⟨⟩) s r s' → r = .yield ⟨⟩ ∧
        (P s' → P s ∧ (body a ⟨⟩ s).log = g a)) →
      ∀ {u : PUnit}, Clean (forIn l PUnit.unit body) s u s' → P s' →
        P s ∧ (forIn l PUnit.unit body s).log = l.flatMap g
  | [], s, s', _, u, h, hP => by
      rw [List.forIn_nil] at h ⊢
      obtain ⟨_, rfl⟩ := clean_pure.mp h
      exact ⟨hP, rfl⟩
  | a :: l, s, s', hbody, u, h, hP => by
      rw [List.forIn_cons] at h ⊢
      obtain ⟨r, s₁, h₁, h⟩ := clean_bind.mp h
      obtain ⟨rfl, hlog⟩ := hbody a (List.mem_cons_self ..) s r s₁ h₁
      obtain ⟨hP₁, hrest⟩ := log_forIn (fun b hb => hbody b (List.mem_cons_of_mem _ hb)) h hP
      obtain ⟨hP₀, hfirst⟩ := hlog hP₁
      have hvalue : (body a ⟨⟩ s).value = (.yield ⟨⟩, s₁) := h₁.value_eq
      rw [Logged.log_bind_run, hvalue, hfirst, List.flatMap_cons]
      exact ⟨hP₀, congrArg (g a ++ ·) hrest⟩

/-- The report that a default binding at an instance causes, if its port is bound as it is now. -/
def overrideOf (s : Atomizing) (q : Instance × ResolvedDefault) : Option Diagnostic :=
  (s.bound[(q.1.id, q.2.port)]?).bind fun b =>
    if b.endpoint.net = q.2.net.id ∨ b.isSuppressed = true then none
    else some ((AtomizeProblem.defaultOverride q.1.name q.2.port (netName s.modul b.endpoint.net)
      q.2.net.name q.2.span).at_ b.endpoint.span)

/-- A later state, with the same nets. -/
structure Later (s s' : Atomizing) : Prop where
  bound : ∀ (key : Ident × String) (b : Bound), s.bound[key]? = some b → s'.bound[key]? = some b
  nets : s'.modul.nets = s.modul.nets

/-- Nets keep their names. -/
theorem Later.netName_eq {s s' : Atomizing} (h : Later s s') (id : Ident) :
    netName s'.modul id = netName s.modul id := by
  rw [netName, netName, h.nets]

/-- A default binding reports what it would at any later time, for then its port is bound. -/
theorem log_applyDefault {inst : Instance} {d : ResolvedDefault} {s s' final : Atomizing} {u : Unit}
    (h : Clean (applyDefault inst d) s u s') (hlater : Later s' final) :
    Later s final ∧ (applyDefault inst d s).log = (final.overrideOf (inst, d)).toList := by
  obtain ⟨s₀, s₁, h₁, h⟩ := clean_bind.mp h
  obtain ⟨rfl, rfl⟩ := clean_get.mp h₁
  rw [applyDefault, Logged.log_bind_run, Logged.get_run, List.nil_append]
  cases hb : s.bound[(inst.id, d.port)]? with
  | none =>
      simp only [hb] at h ⊢
      obtain rfl := clean_bindPort h
      refine ⟨⟨fun key b hkey => hlater.bound _ _ ?_, hlater.nets⟩, ?_⟩
      · exact (extends_withEndpoint hb).bound key b hkey
      · have hbound := hlater.bound (inst.id, d.port) _ Std.HashMap.getElem?_insert_self
        simp only [overrideOf, hbound, Option.bind_some, true_or, if_true]
        rfl
  | some b =>
      simp only [hb] at h ⊢
      have hcond : (!b.isSuppressed && b.endpoint.net != d.net.id) = true ↔
          ¬ (b.endpoint.net = d.net.id ∨ b.isSuppressed = true) := by
        simp [and_comm]
      by_cases hover : b.endpoint.net = d.net.id ∨ b.isSuppressed = true
      · rw [if_neg fun hc => hcond.mp hc hover] at h ⊢
        obtain ⟨_, rfl⟩ := clean_pure.mp h
        refine ⟨hlater, ?_⟩
        simp only [overrideOf, hlater.bound _ b hb, Option.bind_some, if_pos hover]
        rfl
      · rw [if_pos (hcond.mpr hover)] at h ⊢
        obtain ⟨rfl, _⟩ := clean_report.mp h
        refine ⟨hlater, ?_⟩
        simp only [overrideOf, hlater.bound _ b hb, Option.bind_some, if_neg hover,
          hlater.netName_eq]
        rfl

/-- The log of an instance is the warnings about its own defaults. -/
theorem log_applyTo {inst : Instance} {defaults : List ResolvedDefault} {s s' final : Atomizing}
    {u : PUnit} (h : Clean (applyTo inst defaults) s u s') (hlater : Later s' final) :
    Later s final ∧ (applyTo inst defaults s).log =
      ((defaults.filter fun d => d.definition == inst.ref.id).map (Prod.mk inst)).filterMap
        final.overrideOf := by
  have hloop := log_forIn (P := (Later · final))
    (g := fun d => if d.definition == inst.ref.id then
      (final.overrideOf (inst, d)).toList else [])
    (fun d _ s r s' hd => by
      split at hd
      · rename_i hof
        obtain ⟨rfl, hone⟩ := clean_yield.mp hd
        refine ⟨rfl, fun hlater => ?_⟩
        obtain ⟨hlater, hlog⟩ := log_applyDefault hone hlater
        refine ⟨hlater, ?_⟩
        rw [if_pos hof, if_pos hof, Logged.log_bind_run, hlog]
        exact List.append_nil _
      · rename_i hof
        obtain ⟨rfl, rfl⟩ := clean_pure.mp hd
        refine ⟨rfl, fun hlater => ⟨hlater, ?_⟩⟩
        rw [if_neg hof, if_neg hof]
        rfl) h hlater
  rw [List.filterMap_map]
  refine ⟨hloop.1, hloop.2.trans ?_⟩
  rw [flatMap_ite fun d : ResolvedDefault => d.definition == inst.ref.id]
  exact (List.filterMap_eq_flatMap_toList ..).symm

/-- The log of all default bindings, as their ports are bound in the end. -/
theorem log_applyAll {made : List Instance} {defaults : List ResolvedDefault}
    {s s' : Atomizing} {u : Unit} (h : Clean (applyAll made.reverse defaults) s u s') :
    (applyAll made.reverse defaults s).log =
      (defaultPairs made defaults).filterMap s'.overrideOf := by
  obtain ⟨_, s₁, h₁, h⟩ := clean_bind.mp h
  obtain ⟨_, rfl⟩ := clean_pure.mp h
  have hloop := log_forIn (P := (Later · s₁))
    (g := fun inst => ((defaults.filter fun d =>
      d.definition == inst.ref.id).map (Prod.mk inst)).filterMap s₁.overrideOf)
    (fun inst _ s r s' hinst => by
      obtain ⟨rfl, hone⟩ := clean_yield.mp hinst
      refine ⟨rfl, fun hlater => ?_⟩
      obtain ⟨hlater, hlog⟩ := log_applyTo hone hlater
      refine ⟨hlater, ?_⟩
      rw [Logged.log_bind_run, hlog]
      exact List.append_nil _) h₁ ⟨fun _ _ hb => hb, rfl⟩
  rw [applyAll, Logged.log_bind_run, hloop.2, defaultPairs, List.filterMap_flatMap]
  exact List.append_nil _

/-! ## Default bindings and instances -/

section

variable {i : AtomizeInput} {alloc : Allocator} {s₁ s' : Atomizing} {iss ess : List (List Event)}
  {es : List Event} {resolved : List (List ResolvedDefault)} (hdecl : DeclaredEvents i iss ess es)
  (hfirst : Trace (start i alloc) es s₁)
  (hlast : Trace s₁ ((defaultPairs s₁.made resolved.flatten).map fun q => .applyDefault q.1 q.2) s')
  (hsmall : s'.modul.Small)

include hdecl hfirst hlast hsmall

/-- Where a default binding meets an instance, what is reported follows from the declarations. -/
theorem meeting_of_resolves (hresolves : List.Forall₂ (fun (d : DesignDefault) rs =>
      List.Forall₂ (Resolves i s₁ d.ref.id) d.bindings rs) i.decl.defaults resolved)
    {inst : Instance} (hinst : inst ∈ es.filterMap Event.inst?) {b : DesignBinding}
    (hb : b ∈ i.defaultsOf inst.ref.id) {r : ResolvedDefault}
    (hr : Resolves i s₁ inst.ref.id b r) :
    ∃ e net, s'.modul.Meeting i (es.filterMap Event.inst?) (es.filterMap Event.net?) inst b e net
      (s'.overrideOf (inst, r)) := by
  have hs' := ((hfirst.append hlast).keeps (start_consistent i alloc) hsmall).1
  have hnet : ∀ {b : DesignBinding} {r : ResolvedDefault}, Resolves i s₁ inst.ref.id b r →
      i.DefaultNet (es.filterMap Event.net?) b r.net := by
    intro b r hr
    obtain ⟨e, x, a, hx, hatoms, hn⟩ := hr.net_named
    exact ⟨e, x, a, hx, hatoms, (getElem?_nets_eq hfirst _).symm.trans hn⟩
  obtain ⟨b₁, r₁, hb₁, hr₁, hres₁⟩ := exists_first_default hresolves hb
  obtain ⟨bound, hget, hmarked, hdefault, hfirstNet⟩ :=
    exists_bound hdecl hfirst hlast hsmall hinst hr₁
  obtain ⟨hinst', hport', hend⟩ := hs'.bound_endpoint inst.id b.port bound hget
  refine ⟨bound.endpoint, r.net, fun id e' => ⟨?_, ?_⟩, hnet hr, hdefault,
    fun h => ⟨b₁, r₁.net, hb₁, hnet hres₁, hfirstNet h⟩, ?_⟩
  · rintro ⟨he', hi, hp⟩
    obtain ⟨rfl, bound', hbound', rfl⟩ := hs'.endpoint_bound id e' he'
    rw [hi, hp, hget] at hbound'
    rw [Option.some.inj hbound']
    exact ⟨rfl, rfl⟩
  · rintro ⟨rfl, rfl⟩
    exact ⟨hend, hinst', hport'⟩
  · simp only [overrideOf, hr.port_eq, hr.span_eq, hget, Option.bind_some, hmarked]
    rfl

end

/-- The overrides that a whole run reports come from the default bindings. -/
theorem overrides_of_clean {i : AtomizeInput} {s s₁ s' : Atomizing} {u v : Unit}
    {resolved : List (List ResolvedDefault)} (hdeclare : Clean (declareAll i) s u s₁)
    (hresolve : Clean (resolveAll i) s₁ resolved s₁)
    (hall : Clean (applyAll s₁.made.reverse resolved.flatten) s₁ v s') :
    overrides ((declareAll i >>= fun _ => applyDefaults i) s) =
      (defaultPairs s₁.made resolved.flatten).filterMap s'.overrideOf := by
  have hlog : overrides (applyAll s₁.made.reverse resolved.flatten s₁) =
      (defaultPairs s₁.made resolved.flatten).filterMap s'.overrideOf := by
    rw [overrides, log_applyAll hall, List.filter_eq_self]
    intro d hd
    obtain ⟨q, _, hq⟩ := List.mem_filterMap.mp hd
    obtain ⟨b, _, hd⟩ := Option.bind_eq_some_iff.mp hq
    split at hd
    · cases hd
    · cases hd
      rfl
  rw [overrides_bind hdeclare, overrides_eq_nil noOverride_declareAll, List.nil_append]
  refine (overrides_bind hresolve).trans ?_
  rw [overrides_eq_nil noOverride_resolveAll, List.nil_append]
  exact hlog

end Atomizing

/-! ## Override reports -/

/-- Where the endpoint expressions for a port agree on the marker, and without any the default
bindings agree on the net, an override is reported exactly when it is made by an endpoint
expression and not marked. -/
theorem Module.Meeting.isSome_iff {m : Module} {i : AtomizeInput} {made : List Instance}
    {nets : List Net} {inst : Instance} {b : DesignBinding} {e : Endpoint} {net : Net}
    {r : Option Diagnostic} (h : m.Meeting i made nets inst b e net r)
    (hmarks : ∀ x ∈ i.marks made inst.id b.port, ∀ y ∈ i.marks made inst.id b.port, x = y)
    (hnets : i.marks made inst.id b.port = [] → ∀ b' ∈ i.defaultsOf inst.ref.id,
      b'.port = b.port → ∀ net', i.DefaultNet nets b' net' → net' = net) :
    r.isSome = true ↔ i.marks made inst.id b.port ≠ [] ∧ e.net ≠ net.id ∧
      true ∉ i.marks made inst.id b.port := by
  have hdefault := h.isDefault_iff
  have hfirst := h.first
  rw [h.report_eq]
  cases hall : i.marks made inst.id b.port with
  | nil =>
      obtain ⟨b₁, net₁, hb₁, hnet₁, heq⟩ := hfirst (hdefault.mpr hall)
      have hsame : net₁ = net := hnets hall b₁ (List.mem_of_find?_eq_some hb₁)
        (by simpa using List.find?_some hb₁) net₁ hnet₁
      simp [heq, hsame]
  | cons x xs =>
      have hx : true ∈ x :: xs ↔ x = true := by
        constructor
        · intro hmem
          rw [hall] at hmarks
          exact (hmarks true hmem x (List.mem_cons_self ..)).symm
        · rintro rfl
          exact List.mem_cons_self ..
      simp only [hx, List.head?_cons, Option.some.injEq]
      by_cases hno : e.net = net.id ∨ x = true
      · rw [if_pos hno]
        exact iff_of_false Bool.false_ne_true fun hover => hno.elim hover.2.1 hover.2.2
      · rw [if_neg hno]
        exact iff_of_true rfl ⟨List.cons_ne_nil x xs, not_or.mp hno⟩

/-! ## A module with a late marker

The net `n` of this module lists `u.p` and then `!u.p`, and a default binding joins `p` to the net
`m`.  The rest of the module is that of the design with one instance. -/

namespace LateMarker

open OneInstance (ref nameText instanceText netText endpointText inst net explicit withInst withBoth
  connected)

def secondText : DesignExpression := ⟨.ofText "x5", .net, "m", .fileStart 0⟩

/-- The default binding of `p`. -/
def binding : DesignBinding := ⟨"p", secondText.id, .fileStart 0⟩

/-- What the module is atomized with. -/
def input : AtomizeInput :=
  ⟨IdMap.ofItems DesignExpression.id
      [nameText, instanceText, netText, endpointText, secondText],
    { OneInstance.decl with
      nets := [⟨netText.id, false, [⟨endpointText.id, false⟩, ⟨endpointText.id, true⟩]⟩,
        ⟨secondText.id, false, []⟩]
      defaults := [⟨ref, .fileStart 0, [binding]⟩] }, 0⟩

/-- The net `m` of the result. -/
def other : Net := { id := .ofNumber .net 2, name := "m" }

/-- The state after the nets, which is also the last one. -/
def final : Atomizing := connected.withNet other

/-- The default binding with its net. -/
def resolved : ResolvedDefault := ⟨ref.id, "p", other, .fileStart 0⟩

/-- The override that is reported. -/
def warning : Diagnostic :=
  ⟨.warning, .defaultOverride, .fileStart 0,
    .text "u.p is bound to \"n\", overriding the default \"m\"",
    [⟨.fileStart 0, .text "default declared here"⟩]⟩

theorem reads_input : OneInstance.Reads input := by
  refine ⟨rfl, fun e he => ?_⟩
  rw [input, IdMap.getElem?_ofItems]
  fin_cases he <;> decide +kernel

theorem getElem?_bound : connected.bound[(inst.id, "p")]? = some explicit :=
  Std.HashMap.getElem?_insert_self

/-- The marked endpoint finds its port bound. -/
theorem clean_connect_marked :
    Clean (connect endpointText true ⟨⟨"u.p", "u.p", 0, []⟩, "u", "p"⟩ net) connected ()
      connected := by
  refine clean_bind.mpr ⟨_, _, clean_get.mpr ⟨rfl, rfl⟩, ?_⟩
  rw [show connected.instances["u"]? = some inst from OneInstance.getElem?_instances]
  dsimp only
  rw [getElem?_bound]
  exact clean_pure.mpr ⟨rfl, rfl⟩

theorem clean_first : Clean (atomizeNet input ⟨netText.id, false,
    [⟨endpointText.id, false⟩, ⟨endpointText.id, true⟩]⟩) withInst () connected := by
  have hfirst := OneInstance.clean_endpoint reads_input OneInstance.clean_connect
  have hagain := OneInstance.clean_endpoint reads_input clean_connect_marked
  exact OneInstance.clean_net reads_input (clean_forIn_cons (clean_yield.mpr ⟨rfl, hfirst⟩)
    (clean_forIn_singleton (clean_yield.mpr ⟨rfl, hagain⟩)))

theorem clean_secondText (noSplice : Bool) (s : Atomizing) :
    Clean (Atomize.logged (input.expand secondText.id noSplice)) s
      (some (secondText, ⟨"m", false, true, [⟨"m", "m", 0, []⟩], []⟩)) s := by
  have hget : input.expressions[secondText.id]? = some secondText := by
    rw [input, IdMap.getElem?_ofItems]
    decide +kernel
  cases noSplice
  · exact OneInstance.clean_expand hget (by decide +kernel) (by decide +kernel)
  · exact OneInstance.clean_expand hget (by decide +kernel) (by decide +kernel)

theorem clean_second : Clean (atomizeNet input ⟨secondText.id, false, []⟩) connected () final := by
  refine clean_bind.mpr ⟨_, _, clean_secondText false _, ?_⟩
  refine clean_bind.mpr ⟨[other], final, ⟨rfl, rfl⟩, ?_⟩
  exact clean_bind.mpr ⟨_, _, clean_pure.mpr ⟨rfl, rfl⟩, clean_pure.mpr ⟨rfl, rfl⟩⟩

theorem clean_declareAll : Clean (declareAll input) (start input {}) () final := by
  refine clean_bind.mpr ⟨_, _, OneInstance.clean_name reads_input rfl, ?_⟩
  refine clean_bind.mpr ⟨_, _,
    clean_forIn_singleton (clean_yield.mpr ⟨rfl, OneInstance.clean_instance reads_input⟩), ?_⟩
  exact clean_bind.mpr ⟨_, _, clean_forIn_cons (clean_yield.mpr ⟨rfl, clean_first⟩)
    (clean_forIn_singleton (clean_yield.mpr ⟨rfl, clean_second⟩)), clean_pure.mpr ⟨rfl, rfl⟩⟩

theorem getElem?_nets : final.nets["m"]? = some other := by
  rw [final, withNet, getElem?_insertIfNew_eq_or]
  change ((withInst.nets.insertIfNew "n" net)["m"]?).or _ = _
  rw [getElem?_insertIfNew_eq_or]
  simp [start, withInst, withInstance, other]

theorem clean_resolveAll : Clean (resolveAll input) final [[resolved]] final := by
  have hnet : Clean (defaultNet input binding) final (some other) final := by
    refine clean_bind.mpr ⟨_, _, clean_secondText true _, ?_⟩
    refine clean_bind.mpr ⟨_, _, clean_get.mpr ⟨rfl, rfl⟩, ?_⟩
    dsimp only
    rw [getElem?_nets]
    exact clean_pure.mpr ⟨rfl, rfl⟩
  have hone : Clean (resolveBindings input ref.id [binding]) final [resolved] final :=
    clean_bind.mpr ⟨_, _, hnet,
      clean_bind.mpr ⟨_, _, clean_pure.mpr ⟨rfl, rfl⟩, clean_pure.mpr ⟨rfl, rfl⟩⟩⟩
  change Clean ([_].mapM _) _ _ _
  rw [List.mapM_cons]
  exact clean_bind.mpr ⟨_, _, hone,
    clean_bind.mpr ⟨_, _, clean_pure.mpr ⟨rfl, rfl⟩, clean_pure.mpr ⟨rfl, rfl⟩⟩⟩

theorem clean_applyAll : Clean (applyAll final.made.reverse [resolved]) final () final := by
  refine clean_bind.mpr ⟨_, _, clean_forIn_singleton (clean_yield.mpr ⟨rfl, ?_⟩),
    clean_pure.mpr ⟨rfl, rfl⟩⟩
  refine clean_forIn_singleton ?_
  rw [if_pos (show (resolved.definition == inst.ref.id) = true from beq_iff_eq.mpr rfl)]
  refine clean_yield.mpr ⟨rfl, clean_bind.mpr ⟨_, _, clean_get.mpr ⟨rfl, rfl⟩, ?_⟩⟩
  rw [show final.bound[(inst.id, resolved.port)]? = some explicit from getElem?_bound]
  dsimp only
  rw [if_pos (by decide +kernel)]
  exact clean_report.mpr ⟨rfl, rfl⟩

theorem clean_all : Clean (atomizeAll input) (start input {}) () final := by
  rw [atomizeAll_eq_bind]
  exact clean_bind.mpr ⟨_, _, clean_declareAll, clean_bind.mpr ⟨_, _, clean_resolveAll,
    clean_bind.mpr ⟨_, _, clean_get.mpr ⟨rfl, rfl⟩, clean_applyAll⟩⟩⟩

theorem small : final.modul.Small := by
  have htwo : ∀ {α : Type} (k l : Ident) (a b : α),
      (((∅ : IdMap α).insert k a).insert l b).size < idLimit := by
    intro α k l a b
    have hone : ((∅ : IdMap α).insert k a).size ≤ 1 := Std.ExtTreeMap.size_insert_le
    exact Nat.lt_of_le_of_lt (Std.ExtTreeMap.size_insert_le.trans (Nat.succ_le_succ hone))
      (by decide)
  have hone : ∀ {α : Type} (k : Ident) (a : α), ((∅ : IdMap α).insert k a).size < idLimit :=
    fun k a => Nat.lt_of_le_of_lt Std.ExtTreeMap.size_insert_le
      (by rw [Std.ExtTreeMap.size_empty]; decide)
  exact ⟨hone _ _, htwo _ _ _ _, hone _ _⟩

end LateMarker

/-! ## Every module -/

/-- In a module without errors, every default binding meets the instances of its definition, and the
overrides that are reported are those of these meetings. -/
theorem atomizeModule_overrides {i : AtomizeInput} {alloc : Allocator} {m : Module}
    (h : (atomizeModule i alloc).hasErrors = false) (hm : (atomizeModule i alloc).value.1 = m)
    (hsmall : m.Small) : ∃ iss nss, List.Forall₂ i.InstancesOf i.decl.instances iss ∧
      List.Forall₂ i.NetsOf i.decl.nets nss ∧
      m.ReportsOverrides i iss.flatten nss.flatten (atomizeModule i alloc).log := by
  obtain ⟨s', hclean, hmodul, _⟩ := clean_of_atomizeModule h
  obtain rfl := hmodul.trans hm
  have hlog : (atomizeModule i alloc).log = (atomizeAll i (start i alloc)).log :=
    List.append_nil _
  rw [atomizeAll_eq_bind] at hclean hlog
  obtain ⟨_, s₁, hdeclare, happly⟩ := clean_bind.mp hclean
  obtain ⟨iss, ess, es, hdecl, hfirst⟩ := clean_declareAll hdeclare
  obtain ⟨resolved, hresolve, hall⟩ := clean_applyDefaults happly
  have hresolves := (clean_resolveAll hresolve).2
  have hlast := clean_applyAll hall
  obtain ⟨nss, insts, hnss, hinsts, _, _, hmakes⟩ := hdecl.makes
  refine ⟨insts, nss, hinsts, hnss, ?_, ⟨(defaultPairs s₁.made resolved.flatten).map s'.overrideOf,
    ?_, ?_⟩, fun inst b e net r hr => hr.isSome_iff⟩
  · rw [← hmakes.instances]
    exact mem_made_iff hfirst hlast hsmall
  · rw [← hmakes.instances, ← hmakes.nets, defaultPairs, made_eq hfirst, List.reverse_reverse,
      List.map_flatMap]
    refine forall₂_flatMap fun inst hinst => ?_
    rw [List.map_map, List.forall₂_map_left_iff, List.forall₂_map_right_iff]
    refine List.Forall₂.imp (fun b r hr => ?_) ((List.forall₂_and_left _ _).mpr
      ⟨fun b hb => hb, forall₂_defaultsOf inst.ref.id hresolves⟩)
    exact meeting_of_resolves hdecl hfirst hlast hsmall hresolves hinst hr.1 hr.2
  · rw [hlog, List.reduceOption, List.filterMap_map]
    exact overrides_of_clean hdeclare hresolve hall

theorem atomizeModule_overrides_late_marker :
    (atomizeModule LateMarker.input {}).hasErrors = false ∧
      (atomizeModule LateMarker.input {}).value.1 = LateMarker.final.modul ∧
      LateMarker.final.modul.Small ∧ ∃ iss nss,
        List.Forall₂ LateMarker.input.InstancesOf LateMarker.input.decl.instances iss ∧
        List.Forall₂ LateMarker.input.NetsOf LateMarker.input.decl.nets nss ∧
        LateMarker.final.modul.ReportsOverrides LateMarker.input iss.flatten nss.flatten
          (atomizeModule LateMarker.input {}).log := by
  obtain ⟨hvalue, herrors⟩ := atomizeModule_of_clean LateMarker.clean_all
  have hm := congrArg Prod.fst hvalue
  exact ⟨herrors, hm, LateMarker.small, atomizeModule_overrides herrors hm LateMarker.small⟩

/-- An override is reported although one of the endpoint expressions for the port has a marker. -/
theorem override_reported_despite_marker :
    (atomizeModule LateMarker.input {}).hasErrors = false ∧
      LateMarker.input.marks [OneInstance.inst] OneInstance.inst.id "p" = [false, true] ∧
      (atomizeModule LateMarker.input {}).log.filter (·.code == .defaultOverride) =
        [LateMarker.warning] := by
  have hlog : (atomizeModule LateMarker.input {}).log =
      (atomizeAll LateMarker.input (start LateMarker.input {})).log := List.append_nil _
  refine ⟨(atomizeModule_of_clean LateMarker.clean_all).2, by decide +kernel, ?_⟩
  rw [hlog, atomizeAll_eq_bind]
  refine (overrides_of_clean LateMarker.clean_declareAll LateMarker.clean_resolveAll
    LateMarker.clean_applyAll).trans ?_
  have hpairs : defaultPairs LateMarker.final.made [[LateMarker.resolved]].flatten =
      [(OneInstance.inst, LateMarker.resolved)] := by
    change [OneInstance.inst].reverse.flatMap _ = _
    simp [LateMarker.resolved, OneInstance.inst]
  have hget : LateMarker.final.bound[(OneInstance.inst.id, LateMarker.resolved.port)]? =
      some OneInstance.explicit := LateMarker.getElem?_bound
  have hname : netName LateMarker.final.modul OneInstance.explicit.endpoint.net = "n" := by
    decide +kernel
  have hdiffers : OneInstance.explicit.endpoint.net ≠ LateMarker.resolved.net.id := by
    decide +kernel
  have hoverride : LateMarker.final.overrideOf (OneInstance.inst, LateMarker.resolved) =
      some LateMarker.warning := by
    rw [overrideOf, hget, Option.bind_some, hname, if_neg]
    · decide +kernel
    · exact not_or.mpr ⟨hdiffers, Bool.false_ne_true⟩
  rw [hpairs, List.filterMap_cons_some hoverride, List.filterMap_nil]

end Netlist
