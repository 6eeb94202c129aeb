import Netlist.Proofs.Symbol.Values

/-!
# Histories of substitutions

Values and texts are asked for one after the other, and what was found is kept.  The answers are
always those that the values of variables make, whatever was asked before.  A variable that is
settled stays so and is not settled before its text is filled in, so no text is filled in twice
(`Fills.expanded_once`).

A variable that is known to have no value and is on a cycle shares the cycle with a report
(`Fills.covers`), and what a settled variable refers to is settled (`Fills.closed`).  So every
cycle that is reached is reported.
-/

namespace Netlist

open Relation (ReflTransGen TransGen)
open Substitution (Event)

/-- The variable that a reported cycle starts with. -/
def Substitution.Event.head? : Event → Option String
  | cycle chain _ => chain.head?
  | _ => none

/-- Each of two variables is reached from the other. -/
def SameCycle (texts : List (String × Located)) (x y : String) : Prop :=
  TransGen (Refers texts) x y ∧ TransGen (Refers texts) y x

namespace Variables

/-! ## What is known stays known -/

/-- The variable is known to have a value, or to have none. -/
def Settled (s : Variables) (x : String) : Prop := (∃ v, s.values.lookup x = some v) ∨ x ∈ s.failed

/-- Nothing that is known is forgotten. -/
structure Extends (s s' : Variables) : Prop where
  settled : ∀ x, s.Settled x → s'.Settled x
  failed : ∀ x, x ∈ s.failed → x ∈ s'.failed

theorem Extends.refl (s : Variables) : s.Extends s := ⟨fun _ => id, fun _ => id⟩

theorem Extends.trans {s₁ s₂ s₃ : Variables} (h : s₁.Extends s₂) (h' : s₂.Extends s₃) :
    s₁.Extends s₃ :=
  ⟨fun x hx => h'.settled x (h.settled x hx), fun x hx => h'.failed x (h.failed x hx)⟩

theorem extends_mark (s : Variables) (chain : List String) : s.Extends (s.mark chain) := by
  refine ⟨fun x hx => ?_, fun x hx => List.mem_append_right _ hx⟩
  rcases hx with hvalue | hfailed
  · exact .inl hvalue
  · exact .inr (List.mem_append_right _ hfailed)

theorem settled_settle {s : Variables} {name out : String} {ok : Bool} {x : String} :
    (s.settle name out ok).Settled x ↔ x = name ∨ s.Settled x := by
  cases ok with
  | true =>
      simp only [Settled, settle, if_true, List.lookup_cons]
      by_cases hx : x = name
      · simp [hx]
      · simp [hx, beq_false_of_ne hx]
  | false => simp [Settled, settle, or_left_comm]

theorem extends_settle (s : Variables) (name out : String) (ok : Bool) :
    s.Extends (s.settle name out ok) := by
  refine ⟨fun x hx => settled_settle.mpr (.inr hx), fun x hx => ?_⟩
  cases ok with
  | true => exact hx
  | false => exact List.mem_cons_of_mem _ hx

section

variable {stack : List String} {span : Span} {pieces : List TemplatePiece} {s s' : Variables}
  {out : String} {ok : Bool} {es : List Event}

/-- Nothing that is settled is unsettled. -/
theorem Fills.extends (h : Fills stack span pieces s out ok s' es) : s.Extends s' := by
  induction h with
  | nil => exact .refl _
  | text _ ih => exact ih
  | undeclared _ _ ih => exact ih
  | known _ _ _ ih => exact ih
  | failed _ _ _ _ ih => exact ih
  | cyclic _ _ _ _ _ ih => exact (extends_mark ..).trans ih
  | expanded _ _ _ _ _ _ ihown ihrest => exact (ihown.trans (extends_settle ..)).trans ihrest

/-- The declared variables that pieces name are settled in the end. -/
theorem Fills.settled (h : Fills stack span pieces s out ok s' es) :
    ∀ y ∈ namesIn pieces, Declares s.texts y → s'.Settled y := by
  induction h with
  | nil => exact nofun
  | text _ ih => exact ih
  | undeclared hraw _ ih =>
      intro y hy hdeclared
      rcases List.mem_cons.mp hy with rfl | hy
      · exact absurd hdeclared (not_declares_of_lookup hraw)
      · exact ih y hy hdeclared
  | known hraw hvalue hrest ih =>
      intro y hy hdeclared
      rcases List.mem_cons.mp hy with rfl | hy
      · exact hrest.extends.settled _ (.inl ⟨_, hvalue⟩)
      · exact ih y hy hdeclared
  | failed hraw hvalue hfailed hrest ih =>
      intro y hy hdeclared
      rcases List.mem_cons.mp hy with rfl | hy
      · exact hrest.extends.settled _ (.inr hfailed)
      · exact ih y hy hdeclared
  | cyclic hraw hvalue hfailed hstack hrest ih =>
      intro y hy hdeclared
      rcases List.mem_cons.mp hy with rfl | hy
      · exact hrest.extends.settled _ (.inr (List.mem_cons_self ..))
      · exact ih y hy hdeclared
  | expanded hraw hvalue hfailed hstack hown hrest ihown ihrest =>
      intro y hy hdeclared
      rcases List.mem_cons.mp hy with rfl | hy
      · exact hrest.extends.settled _ (settled_settle.mpr (.inl rfl))
      · rw [← hown.texts_eq, ← texts_settle] at hdeclared
        exact ihrest y hy hdeclared

end

/-! ## Nothing happens twice -/

/-- The names are different, and a property holds of each of them afterwards that did not before. -/
structure Once (P : Variables → String → Prop) (s : Variables) (names : List String)
    (s' : Variables) : Prop where
  nodup : names.Nodup
  before : ∀ x ∈ names, ¬ P s x
  after : ∀ x ∈ names, P s' x

section

variable {P : Variables → String → Prop} {s₁ s₂ s₃ : Variables}

theorem Once.nil : Once P s₁ [] s₂ := ⟨List.nodup_nil, nofun, nofun⟩

/-- Two runs one after the other. -/
theorem Once.append {l l' : List String} (h : Once P s₁ l s₂) (h' : Once P s₂ l' s₃)
    (hkeep : ∀ x, P s₁ x → P s₂ x) (hkeep' : ∀ x, P s₂ x → P s₃ x) : Once P s₁ (l ++ l') s₃ where
  nodup := by
    rw [List.nodup_append]
    refine ⟨h.nodup, h'.nodup, ?_⟩
    rintro x hx _ hx' rfl
    exact h'.before x hx' (h.after x hx)
  before x hx hP := by
    rcases List.mem_append.mp hx with hx | hx
    · exact h.before x hx hP
    · exact h'.before x hx (hkeep x hP)
  after x hx := by
    rcases List.mem_append.mp hx with hx | hx
    · exact hkeep' x (h.after x hx)
    · exact h'.after x hx

end

section

variable {stack : List String} {span : Span} {pieces : List TemplatePiece} {s s' : Variables}
  {out : String} {ok : Bool} {es : List Event}

/-- A variable is settled once its text is filled in, and was not before.  A variable on the stack
need not be settled yet, but is not expanded again either. -/
theorem Fills.expanded_once (h : Fills stack span pieces s out ok s' es) :
    Once Settled s (es.filterMap Event.expanded?) s' ∧
      ∀ x ∈ es.filterMap Event.expanded?, x ∉ stack := by
  induction h with
  | nil => exact ⟨.nil, nofun⟩
  | text _ ih => exact ih
  | undeclared _ _ ih => exact ih
  | known _ _ _ ih => exact ih
  | failed _ _ _ _ ih => exact ih
  | cyclic _ _ _ _ hrest ih =>
      obtain ⟨honce, hstack⟩ := ih
      exact ⟨Once.nil.append honce (extends_mark ..).settled hrest.extends.settled, hstack⟩
  | @expanded stack span name out more start stop rest s s₁ s₂ ok ok' es es' raw hraw hvalue
      hfailed hstack hown hrest ihown ihrest =>
      obtain ⟨honce, hinner⟩ := ihown
      obtain ⟨honce', houter⟩ := ihrest
      have hsettle := extends_settle s₁ name out ok
      have hname :
          Once Settled s (name :: es.filterMap Event.expanded?) (s₁.settle name out ok) := by
        refine ⟨List.nodup_cons.mpr ⟨fun hx => ?_, honce.nodup⟩, fun x hx => ?_, fun x hx => ?_⟩
        · exact hinner name hx (List.mem_cons_self ..)
        · rcases List.mem_cons.mp hx with rfl | hx
          · rintro (⟨v, hv⟩ | hx)
            · exact absurd (hvalue.symm.trans hv) nofun
            · exact hfailed hx
          · exact honce.before x hx
        · rcases List.mem_cons.mp hx with rfl | hx
          · exact settled_settle.mpr (.inl rfl)
          · exact hsettle.settled x (honce.after x hx)
      have hevents : (Event.expanded name :: es ++ es').filterMap Event.expanded? =
          (name :: es.filterMap Event.expanded?) ++ es'.filterMap Event.expanded? := by
        simp [Event.expanded?]
      rw [hevents]
      refine ⟨hname.append honce' (hown.extends.trans hsettle).settled hrest.extends.settled, ?_⟩
      intro x hx
      rcases List.mem_append.mp hx with hx | hx
      · rcases List.mem_cons.mp hx with rfl | hx
        · exact hstack
        · exact fun hmem => hinner x hx (List.mem_cons_of_mem _ hmem)
      · exact houter x hx

/-- A variable that a reported cycle starts with is known to have no value then, and was not
before. -/
theorem Fills.heads_once (h : Fills stack span pieces s out ok s' es) :
    Once (fun s x => x ∈ s.failed) s (es.filterMap Event.head?) s' := by
  induction h with
  | nil => exact .nil
  | text _ ih => exact ih
  | undeclared _ _ ih => exact ih
  | known _ _ _ ih => exact ih
  | failed _ _ _ _ ih => exact ih
  | @cyclic stack span name more start stop rest s s' ok es raw hraw hvalue hfailed hstack
      hrest ih =>
      have hname : Once (fun s x => x ∈ s.failed) s [name] (s.mark (chainFrom stack name)) := by
        refine ⟨List.nodup_singleton _, fun x hx => ?_, fun x hx => ?_⟩
        · exact List.mem_singleton.mp hx ▸ hfailed
        · exact List.mem_singleton.mp hx ▸ List.mem_cons_self ..
      exact hname.append ih (extends_mark ..).failed hrest.extends.failed
  | @expanded stack span name out more start stop rest s s₁ s₂ ok ok' es es' raw hraw hvalue
      hfailed hstack hown hrest ihown ihrest =>
      have hsettle := extends_settle s₁ name out ok
      have hfill : Once (fun s x => x ∈ s.failed) s (es.filterMap Event.head?)
          (s₁.settle name out ok) :=
        ⟨ihown.nodup, ihown.before, fun x hx => hsettle.failed x (ihown.after x hx)⟩
      rw [List.cons_append, List.filterMap_cons_none rfl, List.filterMap_append]
      exact hfill.append ihrest (hown.extends.trans hsettle).failed hrest.extends.failed

/-! ## Cycles -/

/-- What is reported as a cycle is one. -/
theorem Fills.isCycle (h : Fills stack span pieces s out ok s' es)
    (hpath : StackPath s.texts stack (namesIn pieces)) :
    ∀ c ∈ es.filterMap Event.cycle?, IsCycle s.texts c.1 := by
  induction h with
  | nil => exact nofun
  | text _ ih => exact ih hpath
  | undeclared _ _ ih => exact ih hpath.tail
  | known _ _ _ ih => exact ih hpath.tail
  | failed _ _ _ _ ih => exact ih hpath.tail
  | cyclic hraw hvalue hfailed hstack hrest ih =>
      intro c hc
      rcases List.mem_cons.mp hc with rfl | hc
      · exact hpath.isCycle hstack
      · exact ih hpath.tail c hc
  | @expanded stack span name out more start stop rest s s₁ s₂ ok ok' es es' raw hraw hvalue
      hfailed hstack hown hrest ihown ihrest =>
      have htexts : (s₁.settle name out ok).texts = s.texts :=
        (texts_settle ..).trans hown.texts_eq
      rw [List.cons_append, List.filterMap_cons_none rfl, List.filterMap_append]
      intro c hc
      rcases List.mem_append.mp hc with hc | hc
      · exact ihown (hpath.push hraw) c hc
      · have hc' := ihrest (htexts ▸ hpath.tail) c hc
        rwa [htexts] at hc'

/-- Each variable that is known to have no value and is on a cycle can be reached from a reported
cycle, and reaches it. -/
def Covers (s : Variables) (cycles : List (List String × Span)) : Prop :=
  ∀ x ∈ s.failed, Cyclic s.texts x → ∃ c ∈ cycles, ∀ y ∈ c.1, SameCycle s.texts x y

theorem Covers.mono {cycles cycles' : List (List String × Span)} (h : s.Covers cycles)
    (hsub : cycles ⊆ cycles') : s.Covers cycles' := by
  intro x hx hcyclic
  obtain ⟨c, hc, hsame⟩ := h x hx hcyclic
  exact ⟨c, hsub hc, hsame⟩

theorem Covers.mark {names : List String} {name : String} {cycles : List (List String × Span)}
    (place : Span) (h : s.Covers cycles) (hpath : StackPath s.texts stack (name :: names))
    (hname : name ∈ stack) :
    (s.mark (chainFrom stack name)).Covers
      (cycles ++ [(chainFrom stack name ++ [name], place)]) := by
  intro x hx hcyclic
  rcases List.mem_append.mp hx with hx | hx
  · refine ⟨_, List.mem_append_right _ (List.mem_singleton_self _), fun y hy => ?_⟩
    have hmem : x ∈ chainFrom stack name ++ [name] := List.mem_append_left _ hx
    have hcycle := hpath.isCycle hname
    exact ⟨hcycle.connected hmem hy, hcycle.connected hy hmem⟩
  · obtain ⟨c, hc, hsame⟩ := h x hx hcyclic
    exact ⟨c, List.mem_append_left _ hc, hsame⟩

/-- A variable on a cycle refers to another one on it.  That one is settled by the time the text of
the first is filled in, and is covered. -/
theorem Covers.settle {name : String} {raw : Located} {cycles : List (List String × Span)}
    (h : s.Covers cycles) (hsound : s.Sound) (hraw : s.texts.lookup name = some raw)
    (hsettled : ∀ y ∈ placeholders raw.text, Declares s.texts y → s.Settled y) :
    (s.settle name out ok).Covers cycles := by
  cases ok with
  | true => exact h
  | false =>
      intro x hx hcyclic
      rcases List.mem_cons.mp hx with rfl | hx
      · obtain ⟨y, hxy, hyx⟩ := TransGen.head'_iff.mp hcyclic
        have hyy : Cyclic s.texts y := TransGen.tail' hyx hxy
        obtain ⟨raw', hraw', hy⟩ := hxy
        cases hraw.symm.trans hraw'
        rcases hsettled y hy hyy.declares with ⟨v, hv⟩ | hfailed
        · exact absurd hyy (hsound.values y v hv).resolvable.not_cyclic
        · obtain ⟨c, hc, hsame⟩ := h y hfailed hyy
          refine ⟨c, hc, fun z hz => ⟨?_, ?_⟩⟩
          · exact (hsame z hz).1.head ⟨raw, hraw, hy⟩
          · exact (hsame z hz).2.trans_left hyx
      · exact h x hx hcyclic

/-- The cycles of the variables that failed are among those reported. -/
theorem Fills.covers (h : Fills stack span pieces s out ok s' es) (hsound : s.Sound)
    (hpath : StackPath s.texts stack (namesIn pieces)) {cycles : List (List String × Span)}
    (hcovers : s.Covers cycles) : s'.Covers (cycles ++ es.filterMap Event.cycle?) := by
  induction h generalizing cycles with
  | nil => exact hcovers.mono (List.subset_append_left ..)
  | text _ ih => exact ih hsound hpath hcovers
  | undeclared _ _ ih => exact ih hsound hpath.tail hcovers
  | known _ _ _ ih => exact ih hsound hpath.tail hcovers
  | failed _ _ _ _ ih => exact ih hsound hpath.tail hcovers
  | @cyclic stack span name more start stop rest s s' ok es raw hraw hvalue hfailed hstack
      hrest ih =>
      have hmarked := ih (hsound.mark hpath hstack) hpath.tail (hcovers.mark raw.span hpath hstack)
      rwa [List.append_assoc] at hmarked
  | @expanded stack span name out more start stop rest s s₁ s₂ ok ok' es es' raw hraw hvalue
      hfailed hstack hown hrest ihown ihrest =>
      have htexts := hown.texts_eq
      obtain ⟨hsound₁, hfilled₁⟩ := hown.sound hsound (hpath.push hraw)
      have hcovers₁ := ihown hsound (hpath.push hraw) hcovers
      have hsettled := hown.settled
      have hpath' := hpath.tail
      rw [← htexts] at hraw hfilled₁ hsettled hpath'
      have hrest' := ihrest (hsound₁.settle hraw hfilled₁) (by rwa [texts_settle])
        (hcovers₁.settle hsound₁ hraw hsettled)
      rw [List.cons_append, List.filterMap_cons_none rfl, List.filterMap_append,
        ← List.append_assoc]
      exact hrest'

/-- What a settled variable refers to is settled, unless the text of that variable is still being
filled in. -/
def Closed (s : Variables) (stack : List String) : Prop :=
  ∀ x, s.Settled x → x ∉ stack → ∀ y, Refers s.texts x y → Declares s.texts y → s.Settled y

theorem Closed.mark {name : String} (h : s.Closed stack) (hname : name ∈ stack) :
    (s.mark (chainFrom stack name)).Closed stack := by
  intro x hx hout y hxy hy
  have hsettled : s.Settled x := by
    rcases hx with hvalue | hfailed
    · exact .inl hvalue
    · rcases List.mem_append.mp hfailed with hchain | hfailed
      · exact absurd (chainFrom_subset hname hchain) hout
      · exact .inr hfailed
  exact (extends_mark ..).settled y (h x hsettled hout y hxy hy)

theorem Closed.settle {name : String} {raw : Located} (h : s.Closed (name :: stack))
    (hraw : s.texts.lookup name = some raw)
    (hsettled : ∀ y ∈ placeholders raw.text, Declares s.texts y → s.Settled y) :
    (s.settle name out ok).Closed stack := by
  intro x hx hout y hxy hy
  rw [texts_settle] at hxy hy
  refine (extends_settle ..).settled y ?_
  by_cases hname : x = name
  · subst hname
    obtain ⟨raw', hraw', hmem⟩ := hxy
    cases hraw.symm.trans hraw'
    exact hsettled y hmem hy
  · have hx' := (settled_settle.mp hx).resolve_left hname
    exact h x hx' (by simp [hname, hout]) y hxy hy

/-- What settled variables off the stack refer to stays settled. -/
theorem Fills.closed (h : Fills stack span pieces s out ok s' es) (hclosed : s.Closed stack) :
    s'.Closed stack := by
  induction h with
  | nil => exact hclosed
  | text _ ih => exact ih hclosed
  | undeclared _ _ ih => exact ih hclosed
  | known _ _ _ ih => exact ih hclosed
  | failed _ _ _ _ ih => exact ih hclosed
  | cyclic _ _ _ hstack _ ih => exact ih (hclosed.mark hstack)
  | expanded hraw hvalue hfailed hstack hown hrest ihown ihrest =>
      have hpushed := ihown fun x hx hout => hclosed x hx fun hmem =>
        hout (List.mem_cons_of_mem _ hmem)
      have hsettled := hown.settled
      rw [← hown.texts_eq] at hraw hsettled
      exact ihrest (hpushed.settle hraw hsettled)

end

theorem Closed.reaches {s : Variables} (h : s.Closed []) {x y : String} (hx : s.Settled x)
    (hxy : Reaches s.texts x y) (hy : Declares s.texts y) : s.Settled y := by
  induction hxy with
  | refl => exact hx
  | tail _ hstep ih => exact h _ (ih hstep.declares) nofun _ hstep hy

/-- What there is to say of events that take what is known from one state to another, while no
text is being filled in before or after them. -/
structure Traced (s : Variables) (es : List Event) (s' : Variables) : Prop where
  texts_eq : s'.texts = s.texts
  sound : s'.Sound
  closed : s'.Closed []
  keeps : s.Extends s'
  expanded : Once Settled s (es.filterMap Event.expanded?) s'
  heads : Once (fun s x => x ∈ s.failed) s (es.filterMap Event.head?) s'
  isCycle : ∀ c ∈ es.filterMap Event.cycle?, IsCycle s.texts c.1
  covers : ∀ cycles, s.Covers cycles → s'.Covers (cycles ++ es.filterMap Event.cycle?)

theorem Traced.refl {s : Variables} (hsound : s.Sound) (hclosed : s.Closed []) :
    Traced s [] s where
  texts_eq := rfl
  sound := hsound
  closed := hclosed
  keeps := .refl s
  expanded := .nil
  heads := .nil
  isCycle := nofun
  covers _ hcovers := hcovers.mono (List.subset_append_left ..)

/-- Two calls one after the other. -/
theorem Traced.trans {s₁ s₂ s₃ : Variables} {es es' : List Event} (h : Traced s₁ es s₂)
    (h' : Traced s₂ es' s₃) : Traced s₁ (es ++ es') s₃ where
  texts_eq := h'.texts_eq.trans h.texts_eq
  sound := h'.sound
  closed := h'.closed
  keeps := h.keeps.trans h'.keeps
  expanded := by
    rw [List.filterMap_append]
    exact h.expanded.append h'.expanded h.keeps.settled h'.keeps.settled
  heads := by
    rw [List.filterMap_append]
    exact h.heads.append h'.heads h.keeps.failed h'.keeps.failed
  isCycle c hc := by
    rw [List.filterMap_append] at hc
    rcases List.mem_append.mp hc with hc | hc
    · exact h.isCycle c hc
    · exact h.texts_eq ▸ h'.isCycle c hc
  covers cycles hcovers := by
    rw [List.filterMap_append, ← List.append_assoc]
    exact h'.covers _ (h.covers cycles hcovers)

/-- All that one call leaves behind. -/
theorem Fills.traced {span : Span} {pieces : List TemplatePiece} {s s' : Variables} {out : String}
    {ok : Bool} {es : List Event} (h : Fills [] span pieces s out ok s' es) (hsound : s.Sound)
    (hclosed : s.Closed []) : Traced s es s' where
  texts_eq := h.texts_eq
  sound := (h.sound hsound .nil).1
  closed := h.closed hclosed
  keeps := h.extends
  expanded := h.expanded_once.1
  heads := h.heads_once
  isCycle := h.isCycle .nil
  covers _ := h.covers hsound .nil

end Variables

/-! ## Which variables have values -/

/-- What can be asked. -/
inductive Call where
  /-- The value of a variable. -/
  | value (name : String)
  /-- A text with its placeholders replaced; the place of the text is given. -/
  | substitute (text : String) (span : Span)

namespace Call

/-- Asks for an answer: a text, and whether there is one.  A variable that has no value gives the
empty text. -/
def run : Call → Substitution (String × Bool)
  | value name => do
    let v ← variableValue name
    return (v.getD "", v.isSome)
  | substitute text span => Netlist.substitute text span

/-- The answer that the values of variables make. -/
def answer (value : String → Option String) : Call → String × Bool
  | .value name => ((value name).getD "", (value name).isSome)
  | .substitute text _ =>
    (replaced (fun y => (value y).getD "") text,
      (placeholders text).all fun y => (value y).isSome)

/-- The variables that are asked for. -/
def names : Call → List String
  | value name => [name]
  | substitute text _ => placeholders text

/-- The variables whose texts are filled in for an answer. -/
def expansions : Call → Variables → List String
  | value name, s => expandedFor s.fuel [] name s
  | substitute text _, s =>
    expandedIn (valueFrom s.fuel []) (expandedFor s.fuel []) (template text) s

/-- Events explain a call: it answers what the values of variables make, it reports what happened
and fills in the texts that were filled in, and the variables it asks for are settled. -/
structure Explains (c : Call) (s : Variables) (es : List Event) : Prop where
  traced : Variables.Traced s es (c.run s).value.2
  answer_eq : (c.run s).value.1 = c.answer (valueOf s.texts)
  log_eq : (c.run s).log = es.filterMap Event.report?
  expansions_eq : c.expansions s = es.filterMap Event.expanded?
  settled : ∀ x ∈ c.names, Declares s.texts x → (c.run s).value.2.Settled x

variable {s : Variables} (hsound : s.Sound) (hclosed : s.Closed [])

include hsound hclosed

end Call

/-- The variables whose texts are filled in for answers. -/
def expansions : List Call → Variables → List String
  | [], _ => []
  | c :: calls, s => c.expansions s ++ expansions calls (c.run s).value.2

end Netlist
