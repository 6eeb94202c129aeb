import Netlist.Design.Build
import Netlist.Proofs.Import.Places

/-!
# What building gives

A design is built from documents and their symbols.  Where these are in a region and there is a
table for each document, building reports what is proper, and the design is *closed*
(`Design.Closed`): its modules speak only of expressions of its table, which are in the region, and
their references lead to its modules and devices.

The table only grows while a design is built, so an expression that is known once is known at the
end.
-/

namespace Netlist

open Diagnostic (Proper)
open Logged (Discipline ensures_pure ensures_report)
open Logged.Discipline (meets_pure meets_get meets_set meets_modify meets_logged meets_mapM
  meets_forIn meets_forM meets_of_inv)

/-! ## Patterns -/

namespace Pattern

variable {r : Region}

theorem Problem.proper_at {span : Span} (hspan : span ∈ r) (p : Problem) :
    (p.at_ span).Proper r := by
  refine ⟨?_, hspan, by simp [at_], ?_⟩
  · cases p with
    | singleItem => exact .inl rfl
    | _ => exact .inr rfl
  · cases p <;> simp only [at_, code] <;> decide

theorem ensures_validateNamed (name definition : String) {span : Span} (hspan : span ∈ r) :
    (validateNamed name definition span).Ensures (Proper r) fun _ => True := by
  unfold validateNamed
  split
  · exact (ensures_report (Q := fun _ => True) (Problem.proper_at hspan _) trivial).bind
      fun _ _ => ensures_pure trivial
  · split
    · exact (ensures_report (Q := fun _ => True) (Problem.proper_at hspan _) trivial).bind
        fun _ _ => ensures_pure trivial
    · exact ensures_pure trivial

end Pattern

/-! ## Variables -/

/-- The texts of all variables are in the region. -/
def Variables.Within (r : Region) (v : Variables) : Prop := ∀ x ∈ v.texts, x.2.span ∈ r

/-- Variables have the spans of their declarations. -/
theorem Variables.within_ofEntries {r : Region} {es : List Entry} (h : EntriesWithin r es) :
    (ofEntries es).Within r := by
  intro x hx
  obtain ⟨e, he, rfl⟩ := List.mem_map.mp (List.mem_reverse.mp hx)
  exact (h e he).2

/-- Looking for values leaves the texts of the variables in their region. -/
def Substitution.discipline (r : Region) : Discipline Variables where
  Report := Proper r
  Inv := Variables.Within r
  Grows _ _ := True
  refl _ := trivial
  trans _ _ := trivial

section Substitution

variable {r : Region}

theorem Substitution.meets_report {d : Diagnostic} (hd : d.Proper r) {v : Variables} :
    (discipline r).Meets v (report d) fun _ _ => True :=
  meets_logged (Q := fun _ => True) (ensures_report hd trivial)

/-- Filling in a template reports at its span, or where values report. -/
theorem meets_fill {value : String → Substitution (Option String)}
    (hvalue : ∀ name v, (Substitution.discipline r).Meets v (value name) fun _ _ => True)
    {span : Span} (hspan : span ∈ r) (pieces : List TemplatePiece) : ∀ v : Variables,
      (Substitution.discipline r).Meets v (fill value span pieces) fun _ _ => True := by
  induction pieces with
  | nil =>
      intro v
      exact meets_pure trivial
  | cons piece rest ih =>
      have hrest : ∀ (f : String × Bool → String × Bool) (v : Variables),
          (Substitution.discipline r).Meets v (fill value span rest >>= fun p => pure (f p))
            fun _ _ => True :=
        fun f v => (ih v).bind fun p v' _ _ => meets_pure trivial
      intro v
      rcases piece with s | ⟨name, start, stop⟩
      · exact hrest (fun p => (s ++ p.1, p.2)) v
      · rw [fill]
        refine meets_get ?_
        split
        · refine (Substitution.meets_report (Diagnostic.proper_error (Region.slice hspan _ _)
            (by simp) (by decide))).bind fun _ v' _ _ => ?_
          exact hrest (fun p => (p.1, false)) v'
        · refine (hvalue name v).bind fun found v' _ _ => ?_
          cases found with
          | some s => exact hrest (fun p => (s ++ p.1, p.2)) v'
          | none => exact hrest (fun p => (p.1, false)) v'

/-- The induction is on the fuel: a value is a template that is filled in. -/
theorem meets_valueFrom (fuel : Nat) : ∀ (stack : List String) (name : String) (v : Variables),
    (Substitution.discipline r).Meets v (valueFrom fuel stack name) fun _ _ => True := by
  induction fuel with
  | zero =>
      intro stack name v
      exact meets_pure trivial
  | succ fuel ih =>
      intro stack name v
      refine meets_of_inv fun hv => ?_
      rw [valueFrom]
      refine meets_get ?_
      split
      · exact meets_pure trivial
      · exact meets_pure trivial
      · exact meets_pure trivial
      · next raw _ _ hraw =>
        obtain ⟨before, after, htexts, -⟩ := List.lookup_eq_some_iff.mp hraw
        have hspan : raw.span ∈ r := hv (name, raw) (by simp [htexts])
        split
        · refine Discipline.Meets.bind (meets_set (Q := fun _ _ => True) (fun h => h) trivial
            trivial) fun _ v' _ _ => ?_
          exact (Substitution.meets_report (Diagnostic.proper_error hspan (by simp)
            (by decide))).bind fun _ _ _ _ => meets_pure trivial
        · refine (meets_fill (ih _) hspan _ v).bind fun p v' _ _ => ?_
          obtain ⟨out, ok⟩ := p
          dsimp only
          split
          · exact Discipline.Meets.bind (meets_modify (Q := fun _ _ => True) (fun h => h) trivial
              trivial) fun _ _ _ _ => meets_pure trivial
          · exact Discipline.Meets.bind (meets_modify (Q := fun _ _ => True) (fun h => h) trivial
              trivial) fun _ _ _ _ => meets_pure trivial

theorem ensures_substitute {v : Variables} (hv : v.Within r) (text : String) {span : Span}
    (hspan : span ∈ r) :
    ((substitute text span).run v).Ensures (Proper r) fun p => p.2.Within r := by
  obtain ⟨hreports, hwithin, _⟩ := meets_fill (meets_valueFrom v.fuel []) hspan (template text) v hv
  exact ⟨hreports, hwithin⟩

theorem ensures_resolveVariables {es : List Entry} (hes : EntriesWithin r es) :
    (resolveVariables es).Ensures (Proper r) (Variables.Within r) := by
  have hvalue : ∀ (name : String) (v : Variables), (Substitution.discipline r).Meets v
      (variableValue name) fun _ _ => True :=
    fun name v => meets_get (meets_valueFrom _ _ _ v)
  have hall : (Substitution.discipline r).Meets (Variables.ofEntries es)
      (es.forM fun e => discard (variableValue e.key.text)) fun _ _ => True :=
    meets_forM fun e _ v _ => (hvalue e.key.text v).bind fun _ _ _ _ => meets_pure trivial
  obtain ⟨hreports, hwithin, _⟩ := hall (Variables.within_ofEntries hes)
  exact ⟨hreports.bind fun _ => Logged.reports_pure _, hwithin⟩

end Substitution

/-! ## References -/

/-- A symbol of some file. -/
def SymbolBase.Has (b : SymbolBase) (s : Symbol) : Prop :=
  ∃ file t, b.table? file = some t ∧ s ∈ t.symbols

/-- A reference to a symbol of some file. -/
def SymbolBase.Refers (b : SymbolBase) (ref : Ref) : Prop :=
  ∃ s token, b.Has s ∧ ref = refOf s token

namespace SymbolBase

variable {r : Region} {b : SymbolBase} {s : Symbol}

theorem Has.within (hs : b.Has s) (hb : b.Within r) : s.definition.Within r := by
  obtain ⟨file, t, ht, hs⟩ := hs
  exact hb t (List.mem_of_find?_eq_some ht) s hs

variable {token : String} {file : FileId}

theorem has_of_mem_lookup {name : String} (h : s ∈ b.lookup file name) :
    b.Has s := by
  unfold lookup at h
  split at h
  · next t ht => exact ⟨file, t, ht, (List.mem_filter.mp h).1⟩
  · cases h

/-- The only symbol of a list is one of it. -/
theorem single_eq_ok {noMatch : RefProblem} {l : List Symbol}
    (h : single token noMatch l = .ok s) : s ∈ l := by
  unfold single at h
  split at h
  · cases h
  · cases h
    exact List.mem_singleton_self s
  · cases h

/-- A list without an only symbol has none or several. -/
theorem single_eq_error {noMatch p : RefProblem} {l : List Symbol}
    (h : single token noMatch l = .error p) : p = noMatch ∨ p = .ambiguous token l := by
  unfold single at h
  split at h
  · cases h
    exact .inl rfl
  · cases h
  · cases h
    exact .inr rfl

/-- What a name refers to is a symbol of the base. -/
theorem find_eq_ok {bindings : Bindings} (h : b.find bindings file token = .ok s) : b.Has s := by
  unfold find at h
  split at h
  · exact has_of_mem_lookup (single_eq_ok h)
  · dsimp only at h
    split at h
    · cases h
    · split at h
      · cases h
      · exact has_of_mem_lookup (single_eq_ok h)
  · cases h

/-- The remarks on a reference that leads nowhere point at symbols. -/
theorem find_eq_error {bindings : Bindings} {p : RefProblem}
    (h : b.find bindings file token = .error p) :
    ∀ n ∈ p.notes, ∃ s, b.Has s ∧ n.span = s.span := by
  have hambiguous : ∀ {file : FileId} {name : String} {noMatch : RefProblem},
      noMatch.notes = [] → single token noMatch (b.lookup file name) = .error p →
        ∀ n ∈ p.notes, ∃ s, b.Has s ∧ n.span = s.span := by
    intro file name noMatch hnone h n hn
    rcases single_eq_error h with rfl | rfl
    · rw [hnone] at hn
      cases hn
    · obtain ⟨s, hs, rfl⟩ := List.mem_map.mp hn
      exact ⟨s, has_of_mem_lookup hs, rfl⟩
  have hnone : ∀ {q : RefProblem}, q.notes = [] → (.error q : Except RefProblem Symbol) = .error p →
      ∀ n ∈ p.notes, ∃ s, b.Has s ∧ n.span = s.span := by
    intro q hq h n hn
    cases h
    rw [hq] at hn
    cases hn
  unfold find at h
  split at h
  · exact hambiguous rfl h
  · dsimp only at h
    split at h
    · exact hnone rfl h
    · split at h
      · exact hnone rfl h
      · exact hambiguous rfl h
  · exact hnone rfl h

/-- Names are resolved to symbols of the base, and problems are at the name. -/
theorem ensures_resolve (hb : b.Within r) (bindings : Bindings) (file : FileId) (token : String)
    {span : Span} (hspan : span ∈ r) :
    (b.resolve bindings file token span).Ensures (Proper r) fun found => ∀ s ∈ found, b.Has s := by
  unfold resolve
  split
  · next s hs =>
    refine ensures_pure fun s' hs' => ?_
    cases hs'
    exact find_eq_ok hs
  · next p hp =>
    refine ⟨List.forall_mem_singleton.mpr (Diagnostic.proper_error hspan (fun n hn => ?_) ?_), ?_⟩
    · obtain ⟨s, hs, hspan⟩ := find_eq_error hp n hn
      rw [hspan]
      exact (hs.within hb).name
    · cases p <;> simp only [RefProblem.code] <;> decide
    · intro s hs
      cases hs

end SymbolBase

/-! ## Closed modules -/

section Closed

variable (r : Region) (refs : Ref → Prop) (t : IdMap DesignExpression)

/-- The expressions of a net declaration are in the table. -/
def DesignNet.Known (n : DesignNet) : Prop :=
  n.expression ∈ t ∧ ∀ e ∈ n.endpoints, e.expression ∈ t

/-- The expressions of an instance declaration are in the table, and its reference is one of the
given ones. -/
structure DesignInstance.Known (i : DesignInstance) : Prop where
  ref : refs i.ref
  expression : i.expression ∈ t
  params : ∀ p ∈ i.params, p.expression ∈ t

/-- The expression of a default binding is in the table, and its place in the region. -/
def DesignBinding.Known (b : DesignBinding) : Prop := b.net ∈ t ∧ b.span ∈ r

/-- A module speaks only of expressions of the table and of the given references. -/
structure DesignModule.Closed (m : DesignModule) : Prop where
  name : m.nameExpression ∈ t
  span : m.span ∈ r
  nets : ∀ n ∈ m.nets, n.Known t
  instances : ∀ i ∈ m.instances, i.Known refs t
  bindings : ∀ d ∈ m.defaults, ∀ b ∈ d.bindings, b.Known r t

variable {r refs t} {t' : IdMap DesignExpression} (h : ∀ k ∈ t, k ∈ t')

include h

theorem DesignNet.Known.mono {n : DesignNet} (hn : n.Known t) : n.Known t' :=
  ⟨h _ hn.1, fun e he => h _ (hn.2 e he)⟩

theorem DesignInstance.Known.mono {i : DesignInstance} (hi : i.Known refs t) : i.Known refs t' :=
  ⟨hi.ref, h _ hi.expression, fun p hp => h _ (hi.params p hp)⟩

theorem DesignBinding.Known.mono {b : DesignBinding} (hb : b.Known r t) : b.Known r t' :=
  ⟨h _ hb.1, hb.2⟩

/-- More expressions do no harm. -/
theorem DesignModule.Closed.mono {m : DesignModule} (hm : m.Closed r refs t) :
    m.Closed r refs t' :=
  ⟨h _ hm.name, hm.span, fun n hn => (hm.nets n hn).mono h, fun i hi => (hm.instances i hi).mono h,
    fun d hd b hb => (hm.bindings d hd b hb).mono h⟩

end Closed

/-! ## Building -/

/-- Expressions are in the region, and the table of expressions only grows. -/
def Build.discipline (r : Region) : Discipline BuildState where
  Report := Proper r
  Inv s := ∀ (k : Ident) (e : DesignExpression), s.expressions[k]? = some e → e.span ∈ r
  Grows s s' := ∀ k ∈ s.expressions, k ∈ s'.expressions
  refl _ _ hk := hk
  trans h h' k hk := h' k (h k hk)

section Building

variable {r : Region} {s : BuildState}

theorem Build.meets_logged {α : Type} {x : Logged α} {Q : α → Prop} (h : x.Ensures (Proper r) Q) :
    (discipline r).Meets s (logged x) fun a _ => Q a := Discipline.meets_logged h

/-- Only a document without a table is a problem with building itself. -/
theorem BuildProblem.proper_at {span : Span} (hspan : span ∈ r) {p : BuildProblem}
    (hp : ∀ path, p ≠ .noTable path) : (p.at_ span).Proper r := by
  refine Diagnostic.proper_error hspan (by simp) ?_
  cases p with
  | noTable path => exact absurd rfl (hp path)
  | _ =>
    simp only [code]
    decide

theorem Build.meets_report {span : Span} {p : BuildProblem} (hspan : span ∈ r)
    (hp : ∀ path, p ≠ .noTable path) :
    (discipline r).Meets s (report span p) fun _ _ => True :=
  meets_logged (Q := fun _ => True) (ensures_report (BuildProblem.proper_at hspan hp) trivial)

/-- An expression that is added is one of the design. -/
theorem Build.meets_addExpression (kind : ExpressionKind) {l : Located} (hl : l.span ∈ r) :
    (discipline r).Meets s (addExpression kind l) fun id s' => id ∈ s'.expressions := by
  refine meets_get (Discipline.Meets.bind (meets_set (Q := fun _ s' =>
    (s.alloc.next .expression).1 ∈ s'.expressions) (fun hs k e hk => ?_) (fun k hk => ?_) ?_)
    fun _ _ _ h => meets_pure h)
  · rw [Std.ExtTreeMap.getElem?_insert] at hk
    split at hk
    · cases hk
      exact hl
    · exact hs k e hk
  · exact Std.ExtTreeMap.mem_insert.mpr (.inr hk)
  · exact Std.ExtTreeMap.mem_insert_self

theorem meets_buildParams {target : Symbol} {ref : String} {tokenSpan : Span}
    (hspan : tokenSpan ∈ r) (fs : List Field) : ∀ {vars : Variables} {s : BuildState},
      vars.Within r → (Build.discipline r).Meets s (buildParams target ref tokenSpan vars fs)
        fun p s' => (∀ x ∈ p.1, x.expression ∈ s'.expressions) ∧ p.2.2.Within r := by
  induction fs with
  | nil =>
      intro vars s hvars
      exact meets_pure ⟨by simp, hvars⟩
  | cons f fs ih =>
      intro vars s hvars
      have hskip : ∀ {vars : Variables} {s : BuildState}, vars.Within r →
          (Build.discipline r).Meets s (buildParams target ref tokenSpan vars fs >>=
            fun p => pure (p.1, false, p.2.2))
            fun p s' => (∀ x ∈ p.1, x.expression ∈ s'.expressions) ∧ p.2.2.Within r :=
        fun hvars => (ih hvars).bind fun p s₁ _ hp => meets_pure hp
      have hfield : tokenSpan.slice f.start f.stop ∈ r := Region.slice hspan _ _
      rw [buildParams]
      dsimp only
      split
      · exact (Build.meets_report hfield (by simp)).bind
          fun _ _ _ _ => hskip hvars
      · split
        · exact (Build.meets_report hfield (by simp)).bind
            fun _ _ _ _ => hskip hvars
        · split
          · exact (Build.meets_report hfield (by simp)).bind
              fun _ _ _ _ => hskip hvars
          · next key value _ _ _ =>
            have hvalue := Region.slice hfield (key.utf8ByteSize + 1 : Nat) f.text.utf8ByteSize
            refine (Build.meets_logged (ensures_substitute hvars value hvalue)).bind
              fun p s₁ _ hp => ?_
            obtain ⟨⟨out, ok⟩, vars⟩ := p
            dsimp only
            split
            · refine (Build.meets_addExpression .param (l := ⟨out, _⟩) hvalue).bind
                fun id s₂ _ hid => (ih hp).bind fun p s₃ h₃ hp => ?_
              exact meets_pure ⟨List.forall_mem_cons.mpr ⟨h₃ id hid, hp.1⟩, hp.2⟩
            · exact hskip hp

variable {input : BuildInput}

theorem meets_buildInstance (hsymbols : input.symbols.Within r)
    (file : FileId) {vars : Variables} (hvars : vars.Within r) {e : Entry}
    (hkey : e.key.span ∈ r) (hvalue : e.value.span ∈ r) :
    (Build.discipline r).Meets s (buildInstance input file vars e) fun p s' =>
      (∀ i ∈ p.1, i.Known input.symbols.Refers s'.expressions) ∧ p.2.Within r := by
  have hnone : ∀ t, ∀ i ∈ (none : Option DesignInstance), i.Known input.symbols.Refers t := by
    intro t i hi
    cases hi
  unfold buildInstance
  split
  · exact (Build.meets_report hvalue (by simp)).bind
      fun _ s₁ _ _ => meets_pure ⟨hnone _, hvars⟩
  · next ref rest _ =>
    refine (Build.meets_logged (SymbolBase.ensures_resolve hsymbols _ _ _
      (Region.slice hvalue _ _))).bind fun found s₁ _ hfound => ?_
    cases found with
    | none => exact meets_pure ⟨hnone _, hvars⟩
    | some target =>
        refine (Build.meets_addExpression .instance_ hkey).bind fun id s₂ _ hid => ?_
        refine (meets_buildParams hvalue rest hvars).bind fun p s₃ h₃ hp => ?_
        refine meets_pure ⟨fun i hi => ?_, hp.2⟩
        dsimp only at hi
        split at hi
        · cases hi
          exact ⟨⟨target, ref.text, hfound target rfl, rfl⟩, h₃ id hid, hp.1⟩
        · cases hi

theorem meets_buildInstances (hsymbols : input.symbols.Within r)
    (file : FileId) (es : List Entry) : EntriesWithin r es →
      ∀ {vars : Variables} {s : BuildState}, vars.Within r →
        (Build.discipline r).Meets s (buildInstances input file vars es) fun is s' =>
          ∀ i ∈ is, i.Known input.symbols.Refers s'.expressions := by
  induction es with
  | nil =>
      intro _ vars s _
      exact meets_pure (by simp)
  | cons e es ih =>
      intro hes vars s hvars
      obtain ⟨⟨hkey, hvalue⟩, hes⟩ := List.forall_mem_cons.mp hes
      refine (meets_buildInstance hsymbols file hvars hkey hvalue).bind fun p s₁ _ hp => ?_
      refine (ih hes hp.2).bind fun more s₂ h₂ hmore => meets_pure ?_
      refine List.forall_mem_append.mpr ⟨fun i hi => ?_, hmore⟩
      exact (hp.1 i (Option.mem_toList.mp hi)).mono h₂

/-- The net and its endpoints are expressions of the design. -/
theorem meets_buildNet {n : NetDecl} (hn : n.Within r) :
    (Build.discipline r).Meets s (buildNet n) fun n s' => n.Known s'.expressions := by
  refine (Build.meets_addExpression .net hn.name).bind fun id s₁ _ hid => ?_
  refine Discipline.Meets.bind (meets_mapM (D := Build.discipline r)
    (Q := fun e s' => e.expression ∈ s'.expressions) (fun e s₁ s₂ h he => h _ he)
    fun e he s₁ _ => ?_) fun es s₂ h₂ hes => ?_
  · exact (Build.meets_addExpression .endpoint (hn.endpoints e he)).bind fun _ _ _ hid =>
      meets_pure hid
  · exact meets_pure ⟨h₂ id hid, hes⟩

theorem meets_buildBindings {target : Symbol} {ref : String} (es : List Entry) :
    EntriesWithin r es → ∀ {s : BuildState},
      (Build.discipline r).Meets s (buildBindings target ref es) fun bs s' =>
        ∀ b ∈ bs, b.Known r s'.expressions := by
  induction es with
  | nil =>
      intro _ s
      exact meets_pure (by simp)
  | cons e es ih =>
      intro hes s
      obtain ⟨⟨hkey, hvalue⟩, hes⟩ := List.forall_mem_cons.mp hes
      rw [buildBindings]
      split
      · refine (Build.meets_addExpression .default_ hvalue).bind fun id s₁ _ hid => ?_
        refine (ih hes).bind fun more s₂ h₂ hmore => meets_pure ?_
        exact List.forall_mem_cons.mpr ⟨⟨h₂ id hid, hkey⟩, hmore⟩
      · exact (Build.meets_report hkey (by simp)).bind
          fun _ _ _ _ => ih hes

theorem meets_buildDefault (hsymbols : input.symbols.Within r)
    (file : FileId) {d : DefaultDecl} (hd : d.Within r) :
    (Build.discipline r).Meets s (buildDefault input file d) fun found s' =>
      ∀ d ∈ found, ∀ b ∈ d.bindings, b.Known r s'.expressions := by
  refine (Build.meets_logged (SymbolBase.ensures_resolve hsymbols _ _ _ hd.ref)).bind
    fun found s₁ _ _ => ?_
  cases found with
  | none =>
      refine meets_pure fun d hd => ?_
      cases hd
  | some target =>
      refine (meets_buildBindings d.bindings hd.bindings).bind fun bs s₂ _ hbs => ?_
      refine meets_pure fun d hd => ?_
      cases hd
      exact hbs

/-- A module is built from its own expressions and declared symbols. -/
theorem meets_buildModule (hsymbols : input.symbols.Within r)
    (symbol : Symbol) {m : ModuleDecl} (hm : m.Within r) :
    (Build.discipline r).Meets s (buildModule input symbol m) fun m s' =>
      m.id = symbol.id ∧ m.Closed r input.symbols.Refers s'.expressions := by
  refine (Build.meets_addExpression .moduleName hm.name).bind fun name s₁ _ hname => ?_
  refine Discipline.Meets.bind (Q := fun _ _ => True) (meets_forIn fun p hp s₂ _ => ?_)
    fun _ s₂ h₂ _ => ?_
  · exact (Build.meets_logged (Pattern.ensures_validateNamed _ _ (hm.patterns p hp).2)).bind
      fun _ _ _ _ => meets_pure trivial
  refine (Build.meets_logged (ensures_resolveVariables hm.vars)).bind fun vars s₃ h₃ hvars => ?_
  refine (meets_buildInstances hsymbols symbol.file m.instances hm.instances hvars).bind
    fun instances s₄ h₄ hinstances => ?_
  refine Discipline.Meets.bind (meets_mapM (fun n s₁ s₂ h hn => hn.mono h)
    fun n hn s₅ _ => meets_buildNet (hm.nets n hn)) fun nets s₅ h₅ hnets => ?_
  refine Discipline.Meets.bind (meets_mapM (Q := fun found s' => ∀ d ∈ found, ∀ b ∈ d.bindings,
      b.Known r s'.expressions) (fun found s₁ s₂ h hd d hmem b hb => (hd d hmem b hb).mono h)
    fun d hd s₆ _ => meets_buildDefault hsymbols symbol.file (hm.defaults d hd))
    fun defaults s₆ h₆ hdefaults => meets_pure ⟨rfl, ?_⟩
  have h₄₆ : ∀ k ∈ s₄.expressions, k ∈ s₆.expressions := fun k hk => h₆ k (h₅ k hk)
  have h₁₆ : ∀ k ∈ s₁.expressions, k ∈ s₆.expressions :=
    fun k hk => h₄₆ k (h₄ k (h₃ k (h₂ k hk)))
  refine ⟨h₁₆ name hname, hm.name, fun n hn => (hnets n hn).mono h₆,
    fun i hi => (hinstances i hi).mono h₄₆, fun d hd => ?_⟩
  obtain ⟨found, hfound, hd⟩ := List.mem_filterMap.mp hd
  exact hdefaults found hfound d hd

/-! ## Files -/

/-- A reference leads to one of some modules and devices. -/
def Design.Declares (ms : List DesignModule) (ds : List Device) (ref : Ref) : Prop :=
  (ref.kind = .module_ ∧ ∃ m ∈ ms, m.id = ref.id) ∨
    (ref.kind = .device ∧ ∃ d ∈ ds, d.id = ref.id)

theorem Design.Declares.mono {ms ms' : List DesignModule} {ds ds' : List Device} {ref : Ref}
    (h : Declares ms ds ref) (hms : ms ⊆ ms') (hds : ds ⊆ ds') : Declares ms' ds' ref := by
  rcases h with ⟨hkind, m, hm, hid⟩ | ⟨hkind, d, hd, hid⟩
  · exact .inl ⟨hkind, m, hms hm, hid⟩
  · exact .inr ⟨hkind, d, hds hd, hid⟩

/-- Building symbols gives closed modules, and every symbol becomes a module or a device. -/
theorem meets_buildSymbols (hsymbols : input.symbols.Within r)
    (symbols : List Symbol) : (∀ x ∈ symbols, x.definition.Within r) → ∀ {s : BuildState},
      (Build.discipline r).Meets s (buildSymbols input symbols) fun p s' =>
        (∀ m ∈ p.1, m.Closed r input.symbols.Refers s'.expressions) ∧
          ∀ x ∈ symbols, ∀ token, Design.Declares p.1 p.2 (refOf x token) := by
  induction symbols with
  | nil =>
      intro _ s
      exact meets_pure ⟨by simp, by simp⟩
  | cons x symbols ih =>
      intro hall s
      obtain ⟨hx, hall⟩ := List.forall_mem_cons.mp hall
      rw [buildSymbols]
      split
      · next m hdefinition =>
        rw [hdefinition] at hx
        refine (meets_buildModule hsymbols x hx).bind fun m s₁ _ hm => ?_
        refine (ih hall).bind fun p s₂ h₂ hp => meets_pure ⟨?_, ?_⟩
        · exact List.forall_mem_cons.mpr ⟨hm.2.mono h₂, hp.1⟩
        · refine List.forall_mem_cons.mpr ⟨fun token => .inl ⟨?_, m, List.mem_cons_self .., hm.1⟩,
            fun y hy token => ?_⟩
          · simp [refOf, hdefinition, Definition.isModule]
          · exact (hp.2 y hy token).mono (List.subset_cons_self ..) (List.Subset.refl _)
      · next d hdefinition =>
        refine (ih hall).bind fun p s₁ _ hp => meets_pure ⟨hp.1, ?_⟩
        refine List.forall_mem_cons.mpr ⟨fun token => .inr ⟨?_, _, List.mem_cons_self .., rfl⟩,
          fun y hy token => ?_⟩
        · simp [refOf, hdefinition, Definition.isModule]
        · exact (hp.2 y hy token).mono (List.Subset.refl _) (List.subset_cons_self ..)

theorem meets_buildDocuments (hsymbols : input.symbols.Within r) (documents : List Document) :
    (∀ d ∈ documents, (input.symbols.table? d.file).isSome = true) → ∀ {s : BuildState},
      (Build.discipline r).Meets s (buildDocuments input documents) fun p s' =>
        (∀ m ∈ p.1, m.Closed r input.symbols.Refers s'.expressions) ∧
          ∀ d ∈ documents, ∀ t, input.symbols.table? d.file = some t →
            ∀ x ∈ t.symbols, ∀ token, Design.Declares p.1 p.2 (refOf x token) := by
  induction documents with
  | nil =>
      intro _ s
      exact meets_pure ⟨by simp, by simp⟩
  | cons d documents ih =>
      intro htables s
      obtain ⟨hd, htables⟩ := List.forall_mem_cons.mp htables
      obtain ⟨t, ht⟩ := Option.isSome_iff_exists.mp hd
      have hwithin : ∀ x ∈ t.symbols, x.definition.Within r :=
        hsymbols t (List.mem_of_find?_eq_some ht)
      rw [buildDocuments, ht]
      refine (meets_buildSymbols hsymbols t.symbols hwithin).bind fun p s₁ _ hp => ?_
      refine (ih htables).bind fun q s₂ h₂ hq => meets_pure ⟨?_, ?_⟩
      · exact List.forall_mem_append.mpr ⟨fun m hm => (hp.1 m hm).mono h₂, hq.1⟩
      · refine List.forall_mem_cons.mpr
          ⟨fun t' ht' x hx token => ?_, fun d hd t ht x hx token => ?_⟩
        · cases ht.symm.trans ht'
          exact (hp.2 x hx token).mono (List.subset_append_left ..) (List.subset_append_left ..)
        · exact (hq.2 d hd t ht x hx token).mono (List.subset_append_right ..)
            (List.subset_append_right ..)

end Building

/-! ## Designs -/

/-- Expressions are in the region, modules speak only of what is in the design, and the top module
is one of them. -/
structure Design.Closed (r : Region) (d : Design) : Prop where
  expressions : ∀ (k : Ident) (e : DesignExpression), d.expressions[k]? = some e → e.span ∈ r
  modules : ∀ m ∈ d.modules, m.Closed r (Design.Declares d.modules d.devices) d.expressions
  top : ∃ m ∈ d.modules, m.id = d.top

section Designs

variable {r : Region} {input : BuildInput} (h : input.symbols.Joins r input.documents)

include h

/-- The top is a module that is declared. -/
theorem ensures_findTop {entry : Document} (hentry : entry ∈ input.documents) :
    (findTop input entry).Ensures (Proper r) fun top => ∀ id ∈ top,
      ∃ s, input.symbols.Has s ∧ s.definition.isModule = true ∧ s.id = id := by
  have hwithin := h.documents entry hentry
  have hreport : ∀ {span : Span} {p : BuildProblem}, span ∈ r → (∀ path, p ≠ .noTable path) →
      (do Logged.report (p.at_ span); return none : Logged (Option Ident)).Ensures (Proper r)
        fun top => ∀ id ∈ top, ∃ s, input.symbols.Has s ∧ s.definition.isModule = true ∧
          s.id = id := by
    intro span p hspan hp
    refine (ensures_report (Q := fun _ => True) (BuildProblem.proper_at hspan hp) trivial).bind
      fun _ _ => ensures_pure fun id hid => ?_
    cases hid
  unfold findTop
  split
  · next top htop =>
    have hspan := hwithin.top top htop
    refine (SymbolBase.ensures_resolve h.symbols _ _ _ hspan).bind fun found hfound => ?_
    cases found with
    | none => exact hreport hspan (by simp)
    | some s =>
        dsimp only
        split
        · next hmodule =>
          refine ensures_pure fun id hid => ?_
          cases hid
          exact ⟨s, hfound s rfl, hmodule, rfl⟩
        · exact hreport hspan (by simp)
  · dsimp only
    split
    · next s hs =>
      refine ensures_pure fun id hid => ?_
      cases hid
      obtain ⟨hmem, hmodule⟩ := List.mem_filter.mp (hs ▸ List.mem_singleton_self s)
      obtain ⟨t, ht⟩ := Option.isSome_iff_exists.mp
        ((h.tables entry.file).mpr ⟨entry, hentry, rfl⟩)
      rw [ht] at hmem
      exact ⟨s, ⟨entry.file, t, ht, hmem⟩, hmodule, rfl⟩
    · exact hreport hwithin.file (by simp)
    · exact hreport hwithin.file (by simp)

/-- Every table is that of a document, so every symbol is built, and references lead to what is
built. -/
theorem meets_buildAll {s : BuildState} :
    (Build.discipline r).Meets s (buildDocuments input input.documents) fun p s' =>
      (∀ m ∈ p.1, m.Closed r (Design.Declares p.1 p.2) s'.expressions) ∧
        ∀ x, input.symbols.Has x → ∀ token, Design.Declares p.1 p.2 (refOf x token) := by
  have htables : ∀ d ∈ input.documents, (input.symbols.table? d.file).isSome = true :=
    fun d hd => (h.tables d.file).mpr ⟨d, hd, rfl⟩
  refine (meets_buildDocuments h.symbols input.documents htables).mono fun p s' hp => ?_
  obtain ⟨hmodules, hdeclares⟩ := hp
  have hall : ∀ x, input.symbols.Has x → ∀ token, Design.Declares p.1 p.2 (refOf x token) := by
    rintro x ⟨file, t, ht, hx⟩ token
    obtain ⟨d, hd, rfl⟩ := (h.tables file).mp (Option.isSome_of_eq_some ht)
    exact hdeclares d hd t ht x hx token
  refine ⟨fun m hm => { hmodules m hm with instances := fun i hi => ?_ }, hall⟩
  have hi := (hmodules m hm).instances i hi
  obtain ⟨x, token, hx, href⟩ := hi.ref
  refine { hi with ref := ?_ }
  rw [href]
  exact hall x hx token

/-- A design that is built is closed. -/
theorem ensures_buildDesign (alloc : Allocator) :
    (buildDesign input alloc).Ensures (Proper r) fun p =>
      ∀ design, p.1 = some design → design.Closed r := by
  unfold buildDesign
  split
  · refine ⟨List.forall_mem_singleton.mpr (BuildProblem.proper_at r.nowhere (by simp)),
      fun design hdesign => ?_⟩
    cases hdesign
  · next entry rest hdocuments =>
    obtain ⟨hreports, hexpressions, -, hmodules, hall⟩ :=
      meets_buildAll h (s := { alloc := alloc }) (fun k e hk => by simp at hk)
    have htop := ensures_findTop h (hdocuments ▸ List.mem_cons_self ..)
    refine ⟨hreports.bind fun p => htop.reports.bind fun _ => Logged.reports_pure _, ?_⟩
    intro design hdesign
    dsimp only [Logged.value_bind, Logged.value_pure] at hdesign
    split at hdesign
    · cases hdesign
    obtain ⟨id, hid, rfl⟩ := Option.map_eq_some_iff.mp hdesign
    refine ⟨hexpressions, hmodules, ?_⟩
    obtain ⟨s, hs, hmodule, rfl⟩ := htop.result id hid
    rcases hall s hs "" with ⟨_, m, hm, hid⟩ | ⟨hkind, _⟩
    · exact ⟨m, hm, hid⟩
    · rw [refOf, hmodule, if_pos rfl] at hkind
      change RefKind.module_ = RefKind.device at hkind
      exact absurd hkind (by decide)

end Designs

end Netlist
