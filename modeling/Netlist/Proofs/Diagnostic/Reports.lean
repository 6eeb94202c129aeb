import Mathlib
import Netlist.Diagnostic.Basic

/-!
# What is reported

`Logged.Reports P` says that everything reported on the way to a result satisfies `P`, and
`Logged.Ensures P Q` adds that the result satisfies `Q`.  A stage whose steps have a state keeps to
a `Logged.Discipline`: what the steps may report, what holds of every state and how a state may
change.  All of this passes through sequences, branches and loops, so that a fact about all reports
of a stage comes down to the places where something is reported.
-/

namespace Netlist

instance : LawfulMonad Logged :=
  LawfulMonad.mk' Logged
    (fun x => by
      cases x
      simp [Functor.map, Logged.andThen])
    (fun a f => by
      simp [Bind.bind, pure, Logged.andThen])
    (fun x f g => by
      simp [Bind.bind, Logged.andThen])

namespace Logged

variable {α β σ : Type} {P : Diagnostic → Prop}

/-! ## Results -/

@[simp] theorem value_map (f : α → β) (x : Logged α) : (f <$> x).value = f x.value := rfl

@[simp] theorem log_map (f : α → β) (x : Logged α) : (f <$> x).log = x.log :=
  List.append_nil _

@[simp] theorem hasErrors_pure (a : α) : (pure a : Logged α).hasErrors = false := rfl

@[simp] theorem hasErrors_bind (x : Logged α) (f : α → Logged β) :
    (x >>= f).hasErrors = (x.hasErrors || (f x.value).hasErrors) := by
  rw [hasErrors, log_bind, List.any_append]
  rfl

@[simp] theorem hasErrors_map (f : α → β) (x : Logged α) : (f <$> x).hasErrors = x.hasErrors := by
  rw [hasErrors, log_map]
  rfl

@[simp] theorem hasErrors_report (d : Diagnostic) : (report d).hasErrors = d.isError :=
  Bool.or_false _

@[simp] theorem hasErrors_reportAll (ds : List Diagnostic) :
    (reportAll ds).hasErrors = ds.any (·.isError) := rfl

variable {x : Logged α} {f : α → Logged β} {d : Diagnostic}

theorem hasErrors_of_mem (hd : d ∈ x.log) (he : d.isError = true) : x.hasErrors = true :=
  List.any_eq_true.mpr ⟨d, hd, he⟩

/-- Everything that is reported satisfies a predicate. -/
def Reports (P : Diagnostic → Prop) (x : Logged α) : Prop := ∀ d ∈ x.log, P d

theorem reports_pure (a : α) : (pure a : Logged α).Reports P := by simp [Reports]

theorem reports_bind :
    (x >>= f).Reports P ↔ x.Reports P ∧ (f x.value).Reports P := by
  simp only [Reports, log_bind, List.forall_mem_append]

theorem Reports.bind (hx : x.Reports P) (hf : ∀ a, (f a).Reports P) : (x >>= f).Reports P :=
  reports_bind.mpr ⟨hx, hf x.value⟩

theorem reports_report : (report d).Reports P ↔ P d := by simp [Reports]

/-! ## Reports and results -/

/-- Everything that is reported satisfies `P`, and the result satisfies `Q`. -/
structure Ensures (P : Diagnostic → Prop) (Q : α → Prop) (x : Logged α) : Prop where
  reports : x.Reports P
  result : Q x.value

theorem ensures_pure {Q : α → Prop} {a : α} (h : Q a) : (pure a : Logged α).Ensures P Q :=
  ⟨reports_pure a, h⟩

/-- Two computations one after the other. -/
theorem Ensures.bind {Q : α → Prop} {R : β → Prop}
    (hx : x.Ensures P Q) (hf : ∀ a, Q a → (f a).Ensures P R) : (x >>= f).Ensures P R :=
  ⟨reports_bind.mpr ⟨hx.reports, (hf _ hx.result).reports⟩, (hf _ hx.result).result⟩

theorem ensures_report {Q : PUnit → Prop} (hd : P d) (h : Q ⟨⟩) :
    (report d).Ensures P Q :=
  ⟨reports_report.mpr hd, h⟩

/-! ## Steps with a state -/

attribute [ext] Logged

theorem value_bind_run (x : StateT σ Logged α) (f : α → StateT σ Logged β) (s : σ) :
    ((x >>= f) s).value = (f (x s).value.1 (x s).value.2).value := rfl

theorem log_bind_run (x : StateT σ Logged α) (f : α → StateT σ Logged β) (s : σ) :
    ((x >>= f) s).log = (x s).log ++ (f (x s).value.1 (x s).value.2).log := rfl

theorem value_map_run (f : α → β) (x : StateT σ Logged α) (s : σ) :
    ((f <$> x) s).value = (f (x s).value.1, (x s).value.2) := rfl

theorem log_map_run (f : α → β) (x : StateT σ Logged α) (s : σ) : ((f <$> x) s).log = (x s).log :=
  List.append_nil _

theorem pure_run (a : α) (s : σ) : (pure a : StateT σ Logged α) s = ⟨(a, s), []⟩ := rfl

theorem get_run (s : σ) : (get : StateT σ Logged σ) s = ⟨(s, s), []⟩ := rfl

theorem set_run (s s' : σ) : (set s' : StateT σ Logged PUnit) s = ⟨(⟨⟩, s'), []⟩ := rfl

theorem modify_run (f : σ → σ) (s : σ) :
    (modify f : StateT σ Logged PUnit) s = ⟨(⟨⟩, f s), []⟩ := rfl

theorem liftM_run (x : Logged α) (s : σ) :
    (liftM x : StateT σ Logged α) s = ⟨(x.value, s), x.log⟩ :=
  congrArg (Logged.mk _) (List.append_nil _)

/-! ## Stages -/

/-- What the steps of a stage keep to. -/
structure Discipline (σ : Type) where
  /-- What they may report. -/
  Report : Diagnostic → Prop
  /-- What holds of every state. -/
  Inv : σ → Prop
  /-- How a state may change. -/
  Grows : σ → σ → Prop
  refl : ∀ s, Grows s s
  trans : ∀ {s₁ s₂ s₃}, Grows s₁ s₂ → Grows s₂ s₃ → Grows s₁ s₃

namespace Discipline

variable {D : Discipline σ} {s : σ} {Q : α → σ → Prop} {R : β → σ → Prop}

/-- From a state, a step keeps to the discipline, and its result and its last state are as they
should. -/
def Meets (D : Discipline σ) (s : σ) (x : StateT σ Logged α) (Q : α → σ → Prop) : Prop :=
  D.Inv s → (x s).Reports D.Report ∧ D.Inv (x s).value.2 ∧ D.Grows s (x s).value.2 ∧
    Q (x s).value.1 (x s).value.2

theorem meets_pure {a : α} (h : Q a s) : D.Meets s (pure a) Q :=
  fun hs => ⟨reports_pure _, hs, D.refl s, h⟩

variable {x : StateT σ Logged α}

/-- Two steps one after the other; the second begins in a later state. -/
theorem Meets.bind {f : α → StateT σ Logged β} (hx : D.Meets s x Q)
    (hf : ∀ a s₁, D.Grows s s₁ → Q a s₁ → D.Meets s₁ (f a) R) : D.Meets s (x >>= f) R := by
  intro hs
  obtain ⟨hreports, hinv, hgrows, hQ⟩ := hx hs
  obtain ⟨hreports', hinv', hgrows', hR⟩ := hf _ _ hgrows hQ hinv
  refine ⟨?_, hinv', D.trans hgrows hgrows', hR⟩
  rw [Reports, log_bind_run]
  exact List.forall_mem_append.mpr ⟨hreports, hreports'⟩

theorem Meets.mono {Q' : α → σ → Prop} (h : D.Meets s x Q)
    (hQ : ∀ a s', Q a s' → Q' a s') : D.Meets s x Q' := by
  intro hs
  obtain ⟨hreports, hinv, hgrows, h⟩ := h hs
  exact ⟨hreports, hinv, hgrows, hQ _ _ h⟩

/-- A step may be looked at from a state where the invariant holds. -/
theorem meets_of_inv (h : D.Inv s → D.Meets s x Q) : D.Meets s x Q :=
  fun hs => h hs hs

theorem meets_get {f : σ → StateT σ Logged β} (h : D.Meets s (f s) R) :
    D.Meets s (get >>= f) R := h

theorem meets_set {s' : σ} {Q : PUnit → σ → Prop} (hinv : D.Inv s → D.Inv s')
    (hgrows : D.Grows s s') (hQ : Q ⟨⟩ s') : D.Meets s (set s') Q :=
  fun hs => ⟨reports_pure (PUnit.unit, s'), hinv hs, hgrows, hQ⟩

theorem meets_modify {f : σ → σ} {Q : PUnit → σ → Prop} (hinv : D.Inv s → D.Inv (f s))
    (hgrows : D.Grows s (f s)) (hQ : Q ⟨⟩ (f s)) : D.Meets s (modify f) Q :=
  fun hs => ⟨reports_pure (PUnit.unit, f s), hinv hs, hgrows, hQ⟩

/-- A step that leaves the state alone. -/
theorem meets_logged {x : Logged α} {Q : α → Prop} (h : x.Ensures D.Report Q) :
    D.Meets s (fun s => do return (← x, s)) fun a _ => Q a :=
  fun hs => ⟨h.reports.bind fun a => reports_pure (a, s), hs, D.refl s, h.result⟩

/-- What holds of the result of each round, and still does in later states, holds of all results
at the end. -/
theorem meets_mapM {f : β → StateT σ Logged α}
    (hQ : ∀ a s₁ s₂, D.Grows s₁ s₂ → Q a s₁ → Q a s₂) {l : List β} :
    ∀ {s : σ}, (∀ b ∈ l, ∀ s₁, D.Grows s s₁ → D.Meets s₁ (f b) Q) →
      D.Meets s (l.mapM f) fun as s' => ∀ a ∈ as, Q a s' := by
  induction l with
  | nil =>
      intro s _
      rw [List.mapM_nil]
      refine meets_pure fun a ha => ?_
      cases ha
  | cons b l ih =>
      intro s hf
      obtain ⟨hb, hl⟩ := List.forall_mem_cons.mp hf
      rw [List.mapM_cons]
      refine (hb s (D.refl s)).bind fun a s₁ h₁ ha => ?_
      refine (ih fun c hc s₂ h₂ => hl c hc s₂ (D.trans h₁ h₂)).bind fun as s₂ h₂ has => ?_
      exact meets_pure (List.forall_mem_cons.mpr ⟨hQ a _ _ h₂ ha, has⟩)

/-- A loop whose body keeps the discipline from every later state. -/
theorem meets_forIn {body : β → PUnit → StateT σ Logged (ForInStep PUnit)} {l : List β} :
    ∀ {s : σ}, (∀ b ∈ l, ∀ s₁, D.Grows s s₁ → D.Meets s₁ (body b ⟨⟩) fun _ _ => True) →
      D.Meets s (forIn l PUnit.unit body) fun _ _ => True := by
  induction l with
  | nil =>
      intro s _
      rw [List.forIn_nil]
      exact meets_pure trivial
  | cons b l ih =>
      intro s hbody
      obtain ⟨hb, hl⟩ := List.forall_mem_cons.mp hbody
      rw [List.forIn_cons]
      refine (hb s (D.refl s)).bind fun r s₁ h₁ _ => ?_
      cases r with
      | done => exact meets_pure trivial
      | yield => exact ih fun c hc s₂ h₂ => hl c hc s₂ (D.trans h₁ h₂)

theorem meets_forM {f : β → StateT σ Logged PUnit} {l : List β} :
    ∀ {s : σ}, (∀ b ∈ l, ∀ s₁, D.Grows s s₁ → D.Meets s₁ (f b) fun _ _ => True) →
      D.Meets s (l.forM f) fun _ _ => True := by
  induction l with
  | nil =>
      intro s _
      exact meets_pure trivial
  | cons b l ih =>
      intro s hf
      obtain ⟨hb, hl⟩ := List.forall_mem_cons.mp hf
      exact (hb s (D.refl s)).bind fun _ s₁ h₁ _ =>
        ih fun c hc s₂ h₂ => hl c hc s₂ (D.trans h₁ h₂)

end Discipline

end Logged

end Netlist
