import Netlist.Proofs.Atomize.Step
import Netlist.Proofs.Axis.Pairing

/-!
# Clean runs

A run is clean when it reports no error (`Clean`).  A clean run of two things in a row is a
clean run of each, and a loop whose rounds are traces of steps is the trace of its
rounds.
-/

namespace Netlist

namespace Atomizing

/-! ## Running cleanly -/

/-- A run from a state to a state, with a result and without errors. -/
structure Clean {α : Type} (x : Atomize α) (s : Atomizing) (a : α) (s' : Atomizing) : Prop where
  /-- The result and the last state. -/
  value_eq : (x.run s).value = (a, s')
  /-- No error was reported. -/
  no_errors : (x.run s).hasErrors = false

section

variable {α β : Type} {s s' : Atomizing}

theorem clean_bind {x : Atomize α} {f : α → Atomize β} {b : β} :
    Clean (x >>= f) s b s' ↔ ∃ a s₁, Clean x s a s₁ ∧ Clean (f a) s₁ b s' := by
  constructor
  · rintro ⟨hv, he⟩
    rw [StateT.run_bind] at hv he
    rw [Logged.hasErrors_bind, Bool.or_eq_false_iff] at he
    exact ⟨_, _, ⟨rfl, he.1⟩, hv, he.2⟩
  · rintro ⟨a, s₁, ⟨hv₁, he₁⟩, hv, he⟩
    constructor
    · rw [StateT.run_bind, Logged.value_bind, hv₁]
      exact hv
    · rw [StateT.run_bind, Logged.hasErrors_bind, he₁, hv₁]
      exact he

theorem clean_pure {a b : α} : Clean (pure a) s b s' ↔ a = b ∧ s = s' := by
  constructor
  · rintro ⟨hv, _⟩
    cases hv
    exact ⟨rfl, rfl⟩
  · rintro ⟨rfl, rfl⟩
    exact ⟨rfl, rfl⟩

theorem clean_get {a : Atomizing} : Clean get s a s' ↔ s = a ∧ s = s' := by
  constructor
  · rintro ⟨hv, _⟩
    cases hv
    exact ⟨rfl, rfl⟩
  · rintro ⟨rfl, rfl⟩
    exact ⟨rfl, rfl⟩

theorem clean_modify {f : Atomizing → Atomizing} {u : PUnit} :
    Clean (modify f) s u s' ↔ s' = f s := by
  constructor
  · rintro ⟨hv, _⟩
    cases hv
    rfl
  · rintro rfl
    exact ⟨rfl, rfl⟩

theorem clean_logged {x : Logged α} {a : α} :
    Clean (Atomize.logged x) s a s' ↔ x.value = a ∧ s = s' ∧ x.hasErrors = false := by
  have herr : ((Atomize.logged x).run s).hasErrors = x.hasErrors := by
    change (x >>= fun a => pure (a, s)).hasErrors = _
    rw [Logged.hasErrors_bind, Logged.hasErrors_pure, Bool.or_false]
  constructor
  · rintro ⟨hv, he⟩
    cases hv
    exact ⟨rfl, rfl, herr ▸ he⟩
  · rintro ⟨rfl, rfl, he⟩
    exact ⟨rfl, herr.trans he⟩

theorem clean_report {span : Span} {p : AtomizeProblem} {u : Unit} :
    Clean (Atomize.report span p) s u s' ↔ s = s' ∧ (p.at_ span).isError = false := by
  rw [Atomize.report, clean_logged]
  simp [Logged.report, Logged.hasErrors]

/-- A run that reports an error is not clean. -/
theorem not_clean_report {span : Span} {p : AtomizeProblem} {u : Unit}
    (hp : (p.at_ span).isError = true) : ¬ Clean (Atomize.report span p) s u s' := by
  intro h
  rw [(clean_report.mp h).2] at hp
  cases hp

/-! ## Loops -/

/-- A loop whose rounds are traces is the trace of its rounds. -/
theorem Clean.forIn {body : β → PUnit → Atomize (ForInStep PUnit)} {P : β → List Event → Prop} :
    ∀ {l : List β} {s s' : Atomizing}, (∀ a ∈ l, ∀ s r s', Clean (body a ⟨⟩) s r s' →
      r = .yield ⟨⟩ ∧ ∃ es, P a es ∧ Trace s es s') → ∀ {u : PUnit},
      Clean (forIn l PUnit.unit body) s u s' → ∃ ess, List.Forall₂ P l ess ∧ Trace s ess.flatten s'
  | [], s, s', _, u, h => by
      rw [List.forIn_nil] at h
      obtain ⟨_, rfl⟩ := clean_pure.mp h
      exact ⟨[], .nil, .nil s⟩
  | a :: l, s, s', hbody, u, h => by
      rw [List.forIn_cons] at h
      obtain ⟨r, s₁, h₁, h⟩ := clean_bind.mp h
      obtain ⟨rfl, es, hes, htrace⟩ := hbody a (List.mem_cons_self ..) s r s₁ h₁
      obtain ⟨ess, hess, hrest⟩ := Clean.forIn
        (fun b hb => hbody b (List.mem_cons_of_mem _ hb)) h
      exact ⟨es :: ess, .cons hes hess, htrace.append hrest⟩

/-- A round that goes on to the next one. -/
theorem clean_yield {x : Atomize Unit} {r : ForInStep PUnit} :
    Clean (do x; pure (ForInStep.yield PUnit.unit)) s r s' ↔
      r = .yield ⟨⟩ ∧ Clean x s () s' := by
  rw [clean_bind]
  constructor
  · rintro ⟨_, s₁, hx, h⟩
    obtain ⟨rfl, rfl⟩ := clean_pure.mp h
    exact ⟨rfl, hx⟩
  · rintro ⟨rfl, hx⟩
    exact ⟨(), s', hx, clean_pure.mpr ⟨rfl, rfl⟩⟩

theorem clean_forIn_cons {body : β → PUnit → Atomize (ForInStep PUnit)} {a : β} {l : List β}
    {s₁ : Atomizing} (h : Clean (body a ⟨⟩) s (.yield ⟨⟩) s₁)
    (hrest : Clean (forIn l PUnit.unit body) s₁ ⟨⟩ s') :
    Clean (forIn (a :: l) PUnit.unit body) s ⟨⟩ s' := by
  rw [List.forIn_cons]
  exact clean_bind.mpr ⟨_, _, h, hrest⟩

/-- A loop of one round. -/
theorem clean_forIn_singleton {body : β → PUnit → Atomize (ForInStep PUnit)} {a : β}
    (h : Clean (body a ⟨⟩) s (.yield ⟨⟩) s') : Clean (forIn [a] PUnit.unit body) s ⟨⟩ s' :=
  clean_forIn_cons h (clean_pure.mpr ⟨rfl, rfl⟩)

theorem Clean.mapM {f : β → Atomize α} {P : β → α → Prop} {g : α → Event} :
    ∀ {l : List β} {s s' : Atomizing}, (∀ b ∈ l, ∀ s a s', Clean (f b) s a s' →
      P b a ∧ Trace s [g a] s') → ∀ {r : List α}, Clean (l.mapM f) s r s' →
      List.Forall₂ P l r ∧ Trace s (r.map g) s'
  | [], s, s', _, r, h => by
      rw [List.mapM_nil] at h
      obtain ⟨rfl, rfl⟩ := clean_pure.mp h
      exact ⟨.nil, .nil s⟩
  | b :: l, s, s', hf, r, h => by
      rw [List.mapM_cons] at h
      obtain ⟨a, s₁, h₁, h⟩ := clean_bind.mp h
      obtain ⟨as, s₂, h₂, h⟩ := clean_bind.mp h
      obtain ⟨rfl, rfl⟩ := clean_pure.mp h
      obtain ⟨hab, htrace⟩ := hf b (List.mem_cons_self ..) s a s₁ h₁
      obtain ⟨hrest, htraces⟩ := Clean.mapM (fun c hc => hf c (List.mem_cons_of_mem _ hc)) h₂
      exact ⟨.cons hab hrest, htrace.append htraces⟩

/-- Rounds that change nothing. -/
theorem Clean.mapM_of_eq {f : β → Atomize α} {P : β → α → Prop} {s : Atomizing} :
    ∀ {l : List β}, (∀ b ∈ l, ∀ a s', Clean (f b) s a s' → s = s' ∧ P b a) →
      ∀ {r : List α} {s' : Atomizing}, Clean (l.mapM f) s r s' → s = s' ∧ List.Forall₂ P l r
  | [], _, r, s', h => by
      rw [List.mapM_nil] at h
      obtain ⟨rfl, rfl⟩ := clean_pure.mp h
      exact ⟨rfl, .nil⟩
  | b :: l, hf, r, s', h => by
      rw [List.mapM_cons] at h
      obtain ⟨a, s₁, h₁, h⟩ := clean_bind.mp h
      obtain ⟨as, s₂, h₂, h⟩ := clean_bind.mp h
      obtain ⟨rfl, rfl⟩ := clean_pure.mp h
      obtain ⟨rfl, hab⟩ := hf b (List.mem_cons_self ..) a s₁ h₁
      obtain ⟨rfl, hrest⟩ := Clean.mapM_of_eq (fun c hc => hf c (List.mem_cons_of_mem _ hc)) h₂
      exact ⟨rfl, .cons hab hrest⟩

end

end Atomizing

end Netlist
