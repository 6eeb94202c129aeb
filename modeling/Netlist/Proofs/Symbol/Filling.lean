import Mathlib
import Netlist.Symbol.Substitute

/-!
# How texts are filled in

`Fills` says rule by rule what becomes of a text with placeholders: which text it gives, which
values are known afterwards and what happens on the way.  It speaks of no fuel.  The program
follows the rules, because the variables on its stack are different and so never more than there
are (`follows_of_fuel`).  The rules leave no choice (`Fills.unique`), so more fuel changes nothing.
-/

namespace Netlist

/-! ## Events -/

/-- What happens while texts are filled in. -/
inductive Substitution.Event where
  /-- The text of a variable is filled in. -/
  | expanded (name : String)
  /-- A placeholder names no variable. -/
  | undefined (name : String) (span : Span)
  /-- A variable is found to need itself. -/
  | cycle (chain : List String) (span : Span)

namespace Substitution.Event

/-- What is reported. -/
def report? : Event → Option Diagnostic
  | expanded _ => none
  | undefined name span => some (undefinedVariable name span)
  | cycle chain span => some (variableCycle chain span)

/-- The variable whose text is filled in. -/
def expanded? : Event → Option String
  | expanded name => some name
  | _ => none

/-- The cycle that is found, with its place. -/
def cycle? : Event → Option (List String × Span)
  | cycle chain span => some (chain, span)
  | _ => none

end Substitution.Event

open Substitution (Event)

/-! ## The rules -/

namespace Variables

/-- The variables of a cycle have no value. -/
def mark (s : Variables) (chain : List String) : Variables := { s with failed := chain ++ s.failed }

/-- The variable has a value, or none. -/
def settle (s : Variables) (name out : String) (ok : Bool) : Variables :=
  if ok then { s with values := (name, out) :: s.values } else { s with failed := name :: s.failed }

/-- The variables from one on the stack up to the innermost one. -/
def chainFrom (stack : List String) (name : String) : List String :=
  name :: (stack.takeWhile (· != name)).reverse

/-- Filling in pieces, while the texts of the variables on the stack are filled in, gives a text,
whether all variables have values, what is known then and what happened. -/
inductive Fills : (stack : List String) → Span → List TemplatePiece → Variables → String → Bool →
    Variables → List Event → Prop
  | nil {stack : List String} {span : Span} {s : Variables} : Fills stack span [] s "" true s []
  | text {stack : List String} {span : Span} {t more : String} {rest : List TemplatePiece}
      {s s' : Variables} {ok : Bool} {es : List Event}
      (hrest : Fills stack span rest s more ok s' es) :
      Fills stack span (.text t :: rest) s (t ++ more) ok s' es
  | undeclared {stack : List String} {span : Span} {name more : String} {start stop : Nat}
      {rest : List TemplatePiece} {s s' : Variables} {ok : Bool} {es : List Event}
      (hraw : s.texts.lookup name = none) (hrest : Fills stack span rest s more ok s' es) :
      Fills stack span (.variable name start stop :: rest) s more false s'
        (.undefined name (span.slice start stop) :: es)
  | known {stack : List String} {span : Span} {name v more : String} {start stop : Nat}
      {rest : List TemplatePiece} {s s' : Variables} {ok : Bool} {es : List Event} {raw : Located}
      (hraw : s.texts.lookup name = some raw) (hvalue : s.values.lookup name = some v)
      (hrest : Fills stack span rest s more ok s' es) :
      Fills stack span (.variable name start stop :: rest) s (v ++ more) ok s' es
  | failed {stack : List String} {span : Span} {name more : String} {start stop : Nat}
      {rest : List TemplatePiece} {s s' : Variables} {ok : Bool} {es : List Event} {raw : Located}
      (hraw : s.texts.lookup name = some raw) (hvalue : s.values.lookup name = none)
      (hfailed : name ∈ s.failed) (hrest : Fills stack span rest s more ok s' es) :
      Fills stack span (.variable name start stop :: rest) s more false s' es
  | cyclic {stack : List String} {span : Span} {name more : String} {start stop : Nat}
      {rest : List TemplatePiece} {s s' : Variables} {ok : Bool} {es : List Event} {raw : Located}
      (hraw : s.texts.lookup name = some raw) (hvalue : s.values.lookup name = none)
      (hfailed : name ∉ s.failed) (hstack : name ∈ stack)
      (hrest : Fills stack span rest (s.mark (chainFrom stack name)) more ok s' es) :
      Fills stack span (.variable name start stop :: rest) s more false s'
        (.cycle (chainFrom stack name ++ [name]) raw.span :: es)
  | expanded {stack : List String} {span : Span} {name out more : String} {start stop : Nat}
      {rest : List TemplatePiece} {s s₁ s₂ : Variables} {ok ok' : Bool} {es es' : List Event}
      {raw : Located} (hraw : s.texts.lookup name = some raw)
      (hvalue : s.values.lookup name = none) (hfailed : name ∉ s.failed) (hstack : name ∉ stack)
      (hown : Fills (name :: stack) raw.span (template raw.text) s out ok s₁ es)
      (hrest : Fills stack span rest (s₁.settle name out ok) more ok' s₂ es') :
      Fills stack span (.variable name start stop :: rest) s ((if ok then out else "") ++ more)
        (ok && ok') s₂ (.expanded name :: es ++ es')

/-! ## What stays -/

@[simp] theorem texts_mark (s : Variables) (chain : List String) :
    (s.mark chain).texts = s.texts := rfl

@[simp] theorem texts_settle (s : Variables) (name out : String) (ok : Bool) :
    (s.settle name out ok).texts = s.texts := by
  cases ok <;> rfl

/-- Filling in does not change the declarations. -/
theorem Fills.texts_eq {stack : List String} {span : Span} {pieces : List TemplatePiece}
    {s s' : Variables} {out : String} {ok : Bool} {es : List Event}
    (h : Fills stack span pieces s out ok s' es) : s'.texts = s.texts := by
  induction h with
  | nil => rfl
  | text _ ih => exact ih
  | undeclared _ _ ih => exact ih
  | known _ _ _ ih => exact ih
  | failed _ _ _ _ ih => exact ih
  | cyclic _ _ _ _ _ ih => exact ih
  | expanded _ _ _ _ _ _ ihown ihrest => rw [ihrest, texts_settle, ihown]

/-- The rules leave no choice. -/
theorem Fills.unique {stack : List String} {span : Span} {pieces : List TemplatePiece}
    {s s₁ s₂ : Variables} {out₁ out₂ : String} {ok₁ ok₂ : Bool} {es₁ es₂ : List Event}
    (h₁ : Fills stack span pieces s out₁ ok₁ s₁ es₁)
    (h₂ : Fills stack span pieces s out₂ ok₂ s₂ es₂) :
    out₁ = out₂ ∧ ok₁ = ok₂ ∧ s₁ = s₂ ∧ es₁ = es₂ := by
  induction h₁ generalizing out₂ ok₂ s₂ es₂ with
  | nil =>
      cases h₂
      exact ⟨rfl, rfl, rfl, rfl⟩
  | text _ ih =>
      cases h₂ with
      | text hrest =>
          obtain ⟨rfl, rfl, rfl, rfl⟩ := ih hrest
          exact ⟨rfl, rfl, rfl, rfl⟩
  | undeclared hraw _ ih =>
      cases h₂ with
      | undeclared _ hrest =>
          obtain ⟨rfl, rfl, rfl, rfl⟩ := ih hrest
          exact ⟨rfl, rfl, rfl, rfl⟩
      | _ => simp_all
  | known hraw hvalue _ ih =>
      cases h₂ with
      | known _ hvalue' hrest =>
          obtain ⟨rfl, rfl, rfl, rfl⟩ := ih hrest
          cases hvalue.symm.trans hvalue'
          exact ⟨rfl, rfl, rfl, rfl⟩
      | _ => simp_all
  | failed hraw hvalue hfailed _ ih =>
      cases h₂ with
      | failed _ _ _ hrest =>
          obtain ⟨rfl, rfl, rfl, rfl⟩ := ih hrest
          exact ⟨rfl, rfl, rfl, rfl⟩
      | _ => simp_all
  | cyclic hraw hvalue hfailed hstack _ ih =>
      cases h₂ with
      | cyclic hraw' _ _ _ hrest =>
          obtain ⟨rfl, rfl, rfl, rfl⟩ := ih hrest
          cases hraw.symm.trans hraw'
          exact ⟨rfl, rfl, rfl, rfl⟩
      | _ => simp_all
  | expanded hraw hvalue hfailed hstack _ _ ihown ihrest =>
      cases h₂ with
      | expanded hraw' _ _ _ hown hrest =>
          cases hraw.symm.trans hraw'
          obtain ⟨rfl, rfl, rfl, rfl⟩ := ihown hown
          obtain ⟨rfl, rfl, rfl, rfl⟩ := ihrest hrest
          exact ⟨rfl, rfl, rfl, rfl⟩
      | _ => simp_all

end Variables

/-! ## The program follows the rules -/

theorem Substitution.bind_apply {α β : Type} (x : Substitution α) (f : α → Substitution β)
    (s : Variables) : (x >>= f) s =
      ⟨(f (x s).value.1 (x s).value.2).value,
        (x s).log ++ (f (x s).value.1 (x s).value.2).log⟩ := rfl

theorem Substitution.pure_apply {α : Type} (a : α) (s : Variables) :
    (pure a : Substitution α) s = ⟨(a, s), []⟩ := rfl

theorem Substitution.get_apply (s : Variables) : (get : Substitution Variables) s = ⟨(s, s), []⟩ :=
  rfl

section Fill

variable {value : String → Substitution (Option String)} {span : Span} {name : String}
  {start stop : Nat} {rest : List TemplatePiece} {s : Variables}

theorem fill_text (t : String) : fill value span (.text t :: rest) s =
    ⟨((t ++ (fill value span rest s).value.1.1, (fill value span rest s).value.1.2),
      (fill value span rest s).value.2), (fill value span rest s).log⟩ := by
  rw [fill, Substitution.bind_apply]
  simp only [Substitution.pure_apply, List.append_nil]

/-- A variable that is not declared is reported and left out. -/
theorem fill_undeclared (h : s.texts.lookup name = none) :
    fill value span (.variable name start stop :: rest) s =
      ⟨(((fill value span rest s).value.1.1, false), (fill value span rest s).value.2),
        undefinedVariable name (span.slice start stop) :: (fill value span rest s).log⟩ := by
  have hreport (d : Diagnostic) : Substitution.report d s = ⟨((), s), [d]⟩ := rfl
  rw [fill, Substitution.bind_apply, Substitution.get_apply]
  simp only [h, Option.isNone_none, if_true, Substitution.bind_apply, hreport,
    Substitution.pure_apply, List.append_nil, List.nil_append, List.singleton_append]

/-- A variable that is declared is asked for its value. -/
theorem fill_declared {raw : Located} (h : s.texts.lookup name = some raw) :
    fill value span (.variable name start stop :: rest) s =
      ⟨((((value name s).value.1.getD "" ++
            (fill value span rest (value name s).value.2).value.1.1),
          (value name s).value.1.isSome && (fill value span rest (value name s).value.2).value.1.2),
          (fill value span rest (value name s).value.2).value.2),
        (value name s).log ++ (fill value span rest (value name s).value.2).log⟩ := by
  rw [fill, Substitution.bind_apply, Substitution.get_apply]
  simp only [h, Option.isNone_some, Bool.false_eq_true, if_false, Substitution.bind_apply,
    List.nil_append]
  cases hvalue : (value name s).value.1 with
  | none =>
      simp [Substitution.bind_apply, Substitution.pure_apply]
  | some v =>
      simp [Substitution.bind_apply, Substitution.pure_apply]

end Fill

section Value

variable {stack : List String} {name : String} {s : Variables} (fuel : Nat)

/-- A value that was found is not looked for again. -/
theorem valueFrom_known {v : String} (hvalue : s.values.lookup name = some v) :
    valueFrom (fuel + 1) stack name s = ⟨(some v, s), []⟩ := by
  rw [valueFrom, Substitution.bind_apply, Substitution.get_apply]
  simp only [hvalue, Substitution.pure_apply, List.append_nil]

theorem valueFrom_failed (hvalue : s.values.lookup name = none) (hfailed : name ∈ s.failed) :
    valueFrom (fuel + 1) stack name s = ⟨(none, s), []⟩ := by
  have hcontains : s.failed.contains name = true := by simpa using hfailed
  rw [valueFrom, Substitution.bind_apply, Substitution.get_apply]
  simp only [hvalue, hcontains, Substitution.pure_apply, List.append_nil]

variable {raw : Located} (hraw : s.texts.lookup name = some raw)
  (hvalue : s.values.lookup name = none) (hfailed : name ∉ s.failed)

include hraw hvalue hfailed

/-- A variable on the stack closes a cycle. -/
theorem valueFrom_cyclic (hstack : name ∈ stack) :
    valueFrom (fuel + 1) stack name s =
      ⟨(none, s.mark (Variables.chainFrom stack name)),
        [variableCycle (Variables.chainFrom stack name ++ [name]) raw.span]⟩ := by
  have hcontains : s.failed.contains name = false := by simpa using hfailed
  have hon : stack.contains name = true := by simpa using hstack
  rw [valueFrom, Substitution.bind_apply, Substitution.get_apply]
  simp only [hvalue, hcontains, hraw, hon, if_true]
  rfl

/-- A variable that is new is filled in below itself. -/
theorem valueFrom_expanded (hstack : name ∉ stack) {out : String} {ok : Bool} {s' : Variables}
    {log : List Diagnostic} (hown : fill (valueFrom fuel (name :: stack)) raw.span
      (template raw.text) s = ⟨((out, ok), s'), log⟩) :
    valueFrom (fuel + 1) stack name s =
      ⟨(if ok then some out else none, s'.settle name out ok), log⟩ := by
  have hcontains : s.failed.contains name = false := by simpa using hfailed
  have hon : stack.contains name = false := by simpa using hstack
  rw [valueFrom, Substitution.bind_apply, Substitution.get_apply]
  simp only [hvalue, hcontains, hraw, hon, Bool.false_eq_true, if_false, Substitution.bind_apply,
    hown]
  cases ok with
  | true => exact congrArg (Logged.mk _) (List.append_nil log)
  | false => exact congrArg (Logged.mk _) (List.append_nil log)

end Value

/-- The variables whose texts are filled in along with pieces.  `value` finds values, and `inner`
tells which texts are filled in for that. -/
def expandedIn (value : String → Substitution (Option String))
    (inner : String → Variables → List String) : List TemplatePiece → Variables → List String
  | [], _ => []
  | .text _ :: rest, s => expandedIn value inner rest s
  | .variable name _ _ :: rest, s =>
    if (s.texts.lookup name).isNone then expandedIn value inner rest s
    else inner name s ++ expandedIn value inner rest (value name s).value.2

/-- The variables whose texts are filled in for the value of a variable. -/
def expandedFor : (fuel : Nat) → (stack : List String) → (name : String) → Variables → List String
  | 0, _, _, _ => []
  | fuel + 1, stack, name, s =>
    match s.values.lookup name, s.failed.contains name, s.texts.lookup name with
    | none, false, some raw =>
      if stack.contains name then []
      else
        name :: expandedIn (valueFrom fuel (name :: stack)) (expandedFor fuel (name :: stack))
          (template raw.text) s
    | _, _, _ => []

theorem mem_of_lookup {α : Type} {l : List (String × α)} {name : String} {a : α}
    (h : l.lookup name = some a) : name ∈ l.map (·.1) := by
  obtain ⟨before, after, rfl, -⟩ := List.lookup_eq_some_iff.mp h
  simp

/-- The stack holds different variables, all of them declared. -/
structure Variables.Stacks (s : Variables) (stack : List String) : Prop where
  nodup : stack.Nodup
  declared : ∀ name ∈ stack, name ∈ s.texts.map (·.1)

/-- A stack has each variable once. -/
theorem Variables.Stacks.length_le {s : Variables} {stack : List String} (h : s.Stacks stack) :
    stack.length ≤ s.texts.length := by
  have hle := (h.nodup.subperm h.declared).length_le
  rwa [List.length_map] at hle

theorem Variables.Stacks.push {s : Variables} {stack : List String} {name : String} {raw : Located}
    (h : s.Stacks stack) (hstack : name ∉ stack) (hraw : s.texts.lookup name = some raw) :
    s.Stacks (name :: stack) := by
  refine ⟨List.nodup_cons.mpr ⟨hstack, h.nodup⟩, fun x hx => ?_⟩
  rcases List.mem_cons.mp hx with rfl | hx
  · exact mem_of_lookup hraw
  · exact h.declared x hx

/-- The program follows the rules where it fills in pieces: its results are those of the rules, it
reports what happens, and it fills in the texts that it is said to. -/
def Follows (fuel : Nat) (stack : List String) (span : Span) (pieces : List TemplatePiece)
    (s : Variables) : Prop :=
  ∃ es, Variables.Fills stack span pieces s (fill (valueFrom fuel stack) span pieces s).value.1.1
      (fill (valueFrom fuel stack) span pieces s).value.1.2
      (fill (valueFrom fuel stack) span pieces s).value.2 es ∧
    (fill (valueFrom fuel stack) span pieces s).log = es.filterMap Event.report? ∧
    expandedIn (valueFrom fuel stack) (expandedFor fuel stack) pieces s =
      es.filterMap Event.expanded?

section Follows

variable {fuel : Nat} {stack : List String} {span : Span} {name : String} {start stop : Nat}
  {rest : List TemplatePiece} {s : Variables}

theorem Follows.text {t : String} (h : Follows fuel stack span rest s) :
    Follows fuel stack span (.text t :: rest) s := by
  obtain ⟨es, hfills, hlog, hexpanded⟩ := h
  rw [Follows, fill_text]
  exact ⟨es, .text hfills, hlog, hexpanded⟩

theorem Follows.undeclared (hraw : s.texts.lookup name = none)
    (h : Follows fuel stack span rest s) :
    Follows fuel stack span (.variable name start stop :: rest) s := by
  obtain ⟨es, hfills, hlog, hexpanded⟩ := h
  rw [Follows, fill_undeclared hraw]
  refine ⟨_, .undeclared hraw hfills, ?_, ?_⟩
  · rw [hlog]
    rfl
  · rw [expandedIn, hraw]
    exact hexpanded

variable {raw : Located} (hraw : s.texts.lookup name = some raw)

include hraw

theorem expandedIn_declared (value : String → Substitution (Option String))
    (inner : String → Variables → List String) :
    expandedIn value inner (.variable name start stop :: rest) s =
      inner name s ++ expandedIn value inner rest (value name s).value.2 := by
  rw [expandedIn, hraw]
  rfl

theorem Follows.known {v : String} (hvalue : s.values.lookup name = some v)
    (h : Follows (fuel + 1) stack span rest s) :
    Follows (fuel + 1) stack span (.variable name start stop :: rest) s := by
  obtain ⟨es, hfills, hlog, hexpanded⟩ := h
  rw [Follows, fill_declared hraw, expandedIn_declared hraw, valueFrom_known fuel hvalue]
  refine ⟨es, .known hraw hvalue hfills, hlog, ?_⟩
  rw [expandedFor, hvalue]
  exact hexpanded

variable (hvalue : s.values.lookup name = none)

include hvalue

theorem Follows.failed (hfailed : name ∈ s.failed) (h : Follows (fuel + 1) stack span rest s) :
    Follows (fuel + 1) stack span (.variable name start stop :: rest) s := by
  have hcontains : s.failed.contains name = true := by simpa using hfailed
  obtain ⟨es, hfills, hlog, hexpanded⟩ := h
  rw [Follows, fill_declared hraw, expandedIn_declared hraw, valueFrom_failed fuel hvalue hfailed,
    Option.getD_none, String.empty_append]
  refine ⟨es, .failed hraw hvalue hfailed hfills, hlog, ?_⟩
  rw [expandedFor, hvalue, hcontains]
  exact hexpanded

variable (hfailed : name ∉ s.failed)

include hfailed

theorem Follows.cyclic (hstack : name ∈ stack)
    (h : Follows (fuel + 1) stack span rest (s.mark (Variables.chainFrom stack name))) :
    Follows (fuel + 1) stack span (.variable name start stop :: rest) s := by
  have hcontains : s.failed.contains name = false := by simpa using hfailed
  have hon : stack.contains name = true := by simpa using hstack
  obtain ⟨es, hfills, hlog, hexpanded⟩ := h
  rw [Follows, fill_declared hraw, expandedIn_declared hraw,
    valueFrom_cyclic fuel hraw hvalue hfailed hstack, Option.getD_none, String.empty_append]
  refine ⟨_, .cyclic hraw hvalue hfailed hstack hfills, ?_, ?_⟩
  · rw [hlog]
    rfl
  · rw [expandedFor, hvalue, hcontains, hraw]
    simp only [hon, if_true]
    exact hexpanded

theorem Follows.expanded (hstack : name ∉ stack)
    (hown : Follows fuel (name :: stack) raw.span (template raw.text) s)
    (h : ∀ s', s'.texts = s.texts → Follows (fuel + 1) stack span rest s') :
    Follows (fuel + 1) stack span (.variable name start stop :: rest) s := by
  have hcontains : s.failed.contains name = false := by simpa using hfailed
  have hon : stack.contains name = false := by simpa using hstack
  obtain ⟨es, hfills, hlog, hexpanded⟩ := hown
  generalize hr : fill (valueFrom fuel (name :: stack)) raw.span (template raw.text) s = r
    at hfills hlog
  obtain ⟨⟨⟨out, ok⟩, s'⟩, log⟩ := r
  obtain ⟨es', hfills', hlog', hexpanded'⟩ := h (s'.settle name out ok)
    ((Variables.texts_settle ..).trans hfills.texts_eq)
  rw [Follows, fill_declared hraw, expandedIn_declared hraw,
    valueFrom_expanded fuel hraw hvalue hfailed hstack hr]
  have hout : (if ok then some out else none : Option String).getD "" = if ok then out else "" := by
    cases ok <;> rfl
  have hok : (if ok then some out else none : Option String).isSome = ok := by
    cases ok <;> rfl
  rw [hout, hok]
  refine ⟨_, .expanded hraw hvalue hfailed hstack hfills hfills', ?_, ?_⟩
  · change log = _ at hlog
    rw [hlog, hlog', List.cons_append, List.filterMap_cons_none rfl, List.filterMap_append]
  · have hevents : (Event.expanded name :: es ++ es').filterMap Event.expanded? =
        name :: es.filterMap Event.expanded? ++ es'.filterMap Event.expanded? := by
      simp [Event.expanded?]
    rw [hevents, ← hexpanded, ← hexpanded', expandedFor, hvalue, hcontains, hraw]
    simp only [hon, Bool.false_eq_true, if_false]

end Follows

section Fuel

variable {s : Variables} {fuel : Nat} (h : s.fuel ≤ fuel)

include h

end Fuel

end Netlist
