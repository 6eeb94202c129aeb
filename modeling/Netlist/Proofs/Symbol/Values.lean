import Netlist.Proofs.Symbol.Filling

/-!
# The values of variables

A variable refers to those that the placeholders of its text name.  It has a value if it is
declared and no variable that can be reached from it is on a cycle or refers to one that is not
declared (`Resolvable`); the value is then its text with the placeholders replaced by values
(`IsValue`).  What is known about variables stays true of them while texts are filled in
(`Fills.sound`), so it makes no difference what was asked before.
-/

namespace Netlist

open Relation (ReflTransGen TransGen)
open Substitution (Event)

/-! ## References -/

/-- The name of a placeholder. -/
def TemplatePiece.name? : TemplatePiece → Option String
  | .text _ => none
  | .variable name _ _ => some name

/-- The variables that placeholders name. -/
def namesIn (pieces : List TemplatePiece) : List String := pieces.filterMap TemplatePiece.name?

/-- The variables that the placeholders of a text name. -/
def placeholders (text : String) : List String := namesIn (template text)

/-- Pieces put together, with texts for the placeholders. -/
def replacedIn (f : String → String) : List TemplatePiece → String
  | [] => ""
  | .text s :: rest => s ++ replacedIn f rest
  | .variable name _ _ :: rest => f name ++ replacedIn f rest

/-- A text with its placeholders replaced. -/
def replaced (f : String → String) (text : String) : String := replacedIn f (template text)

theorem replacedIn_congr {f g : String → String} {pieces : List TemplatePiece}
    (h : ∀ y ∈ namesIn pieces, f y = g y) : replacedIn f pieces = replacedIn g pieces := by
  induction pieces with
  | nil => rfl
  | cons piece rest ih =>
      match piece with
      | .text s => rw [replacedIn, replacedIn, ih h]
      | .variable name start stop =>
          have hrest := ih fun y hy => h y (List.mem_cons_of_mem _ hy)
          rw [replacedIn, replacedIn, hrest, h name (List.mem_cons_self ..)]

section

variable (texts : List (String × Located))

/-- The variable is declared. -/
def Declares (x : String) : Prop := ∃ raw, texts.lookup x = some raw

/-- The text of a variable has a placeholder for another one. -/
def Refers (x y : String) : Prop := ∃ raw, texts.lookup x = some raw ∧ y ∈ placeholders raw.text

/-- A variable can be reached through placeholders. -/
def Reaches : String → String → Prop := ReflTransGen (Refers texts)

/-- The variable is on a cycle. -/
def Cyclic (x : String) : Prop := TransGen (Refers texts) x x

/-- The variable is declared, and none that can be reached from it is on a cycle or has a
placeholder for one that is not declared. -/
def Resolvable (x : String) : Prop :=
  Declares texts x ∧
    ∀ y, Reaches texts x y → ¬ Cyclic texts y ∧ ∀ z, Refers texts y z → Declares texts z

/-- The value of a variable: its text with the placeholders replaced by values. -/
inductive IsValue : String → String → Prop
  | intro {x : String} {raw : Located} {f : String → String} (hraw : texts.lookup x = some raw)
      (h : ∀ y ∈ placeholders raw.text, IsValue y (f y)) : IsValue x (replaced f raw.text)

end

section

variable {texts : List (String × Located)} {x y : String}

/-- A variable has one value. -/
theorem IsValue.unique {v w : String} (h : IsValue texts x v) (h' : IsValue texts x w) : v = w := by
  induction h generalizing w with
  | intro hraw _ ih =>
      cases h' with
      | intro hraw' h' =>
          cases hraw.symm.trans hraw'
          exact replacedIn_congr fun y hy => ih y hy (h' y hy)

/-- What a resolvable variable refers to is resolvable. -/
theorem Resolvable.of_refers (h : Resolvable texts x) (hxy : Refers texts x y) :
    Resolvable texts y :=
  ⟨(h.2 x .refl).2 y hxy, fun z hyz => h.2 z (hyz.head hxy)⟩

/-- A declared variable that refers to resolvable ones is resolvable.  It is on no cycle, because
one of the others would be on it too. -/
theorem resolvable_of_refers (hdeclared : Declares texts x)
    (h : ∀ y, Refers texts x y → Resolvable texts y) : Resolvable texts x := by
  have hacyclic : ¬ Cyclic texts x := by
    intro hcyclic
    obtain ⟨y, hxy, hyx⟩ := TransGen.head'_iff.mp hcyclic
    exact ((h y hxy).2 x hyx).1 hcyclic
  refine ⟨hdeclared, fun z hxz => ?_⟩
  rcases ReflTransGen.cases_head hxz with rfl | ⟨y, hxy, hyz⟩
  · exact ⟨hacyclic, fun z hxz => (h z hxz).1⟩
  · exact (h y hxy).2 z hyz

theorem IsValue.resolvable {v : String} (h : IsValue texts x v) : Resolvable texts x := by
  induction h with
  | intro hraw _ ih =>
      refine resolvable_of_refers ⟨_, hraw⟩ ?_
      rintro y ⟨raw', hraw', hy⟩
      cases hraw.symm.trans hraw'
      exact ih y hy

theorem not_declares_of_lookup (h : texts.lookup x = none) : ¬ Declares texts x := by
  rintro ⟨raw, hraw⟩
  exact absurd (h.symm.trans hraw) nofun

theorem Refers.declares (h : Refers texts x y) : Declares texts x := by
  obtain ⟨raw, hraw, -⟩ := h
  exact ⟨raw, hraw⟩

theorem Cyclic.declares (h : Cyclic texts x) : Declares texts x := by
  obtain ⟨y, hxy, -⟩ := TransGen.head'_iff.mp h
  exact hxy.declares

theorem Resolvable.not_cyclic (h : Resolvable texts x) : ¬ Cyclic texts x := (h.2 x .refl).1

end

/-! ## Values found so far -/

section

variable (texts : List (String × Located))

open Classical in
/-- The value of a variable that has one. -/
noncomputable def valueOf (x : String) : Option String :=
  if h : ∃ v, IsValue texts x v then some h.choose else none

/-- The value of a variable, or nothing in its place. -/
noncomputable def valueOr (x : String) : String := (valueOf texts x).getD ""

/-- A text and whether it is whole are what the values of variables make of pieces. -/
structure Filled (pieces : List TemplatePiece) (out : String) (ok : Bool) : Prop where
  out_eq : out = replacedIn (valueOr texts) pieces
  values : ok = true → ∀ y ∈ namesIn pieces, IsValue texts y (valueOr texts y)
  fails : ok = false → ∃ y ∈ namesIn pieces, ¬ Resolvable texts y

end

section

variable {texts : List (String × Located)} {x v : String}

theorem valueOf_eq_some_iff : valueOf texts x = some v ↔ IsValue texts x v := by
  rw [valueOf]
  split
  case isTrue h =>
    rw [Option.some.injEq]
    exact ⟨fun heq => heq ▸ h.choose_spec, fun hv => h.choose_spec.unique hv⟩
  case isFalse h =>
    exact ⟨nofun, fun hv => absurd ⟨v, hv⟩ h⟩

theorem resolvable_of_isSome (h : (valueOf texts x).isSome = true) : Resolvable texts x := by
  obtain ⟨v, hv⟩ := Option.isSome_iff_exists.mp h
  exact (valueOf_eq_some_iff.mp hv).resolvable

theorem IsValue.valueOr_eq (h : IsValue texts x v) : valueOr texts x = v := by
  rw [valueOr, valueOf_eq_some_iff.mpr h, Option.getD_some]

theorem valueOr_of_not_resolvable (h : ¬ Resolvable texts x) : valueOr texts x = "" := by
  cases hv : valueOf texts x with
  | none => rw [valueOr, hv, Option.getD_none]
  | some v => exact absurd (resolvable_of_isSome (by rw [hv, Option.isSome_some])) h

variable {start stop : Nat} {rest : List TemplatePiece} {more : String} {ok : Bool}

theorem Filled.text {t : String} (h : Filled texts rest more ok) :
    Filled texts (.text t :: rest) (t ++ more) ok :=
  ⟨by rw [replacedIn, h.out_eq], h.values, h.fails⟩

theorem Filled.value (hx : IsValue texts x v) (h : Filled texts rest more ok) :
    Filled texts (.variable x start stop :: rest) (v ++ more) ok where
  out_eq := by rw [replacedIn, hx.valueOr_eq, h.out_eq]
  values hok y hy := by
    rcases List.mem_cons.mp hy with rfl | hy
    · rwa [hx.valueOr_eq]
    · exact h.values hok y hy
  fails hok := by
    obtain ⟨y, hy, hfails⟩ := h.fails hok
    exact ⟨y, List.mem_cons_of_mem _ hy, hfails⟩

theorem Filled.without (hx : ¬ Resolvable texts x) (h : Filled texts rest more ok) :
    Filled texts (.variable x start stop :: rest) more false where
  out_eq := by rw [replacedIn, valueOr_of_not_resolvable hx, String.empty_append, h.out_eq]
  values := nofun
  fails _ := ⟨x, List.mem_cons_self .., hx⟩

/-- A variable whose text is whole has that text as its value. -/
theorem Filled.isValue {raw : Located} {out : String} (hraw : texts.lookup x = some raw)
    (h : Filled texts (template raw.text) out true) : IsValue texts x out := by
  rw [h.out_eq]
  exact .intro hraw (h.values rfl)

/-- A text that is not filled in belongs to no resolvable variable. -/
theorem Filled.not_resolvable {raw : Located} {out : String} (hraw : texts.lookup x = some raw)
    (h : Filled texts (template raw.text) out false) : ¬ Resolvable texts x := by
  obtain ⟨y, hy, hfails⟩ := h.fails rfl
  exact fun hx => hfails (hx.of_refers ⟨raw, hraw, hy⟩)

end

/-! ## Cycles -/

section

variable {texts : List (String × Located)} {stack names : List String} {name : String}

/-- The variables on a stack refer each to the one above it, and the innermost one to the names. -/
structure StackPath (texts : List (String × Located)) (stack names : List String) : Prop where
  chain : stack.IsChain fun inner outer => Refers texts outer inner
  refers : ∀ x ∈ stack.head?, ∀ y ∈ names, Refers texts x y

theorem StackPath.nil : StackPath texts [] names := ⟨.nil, nofun⟩

theorem StackPath.tail (h : StackPath texts stack (name :: names)) : StackPath texts stack names :=
  ⟨h.chain, fun x hx y hy => h.refers x hx y (List.mem_cons_of_mem _ hy)⟩

/-- A placeholder is followed into its variable. -/
theorem StackPath.push {raw : Located} (h : StackPath texts stack (name :: names))
    (hraw : texts.lookup name = some raw) :
    StackPath texts (name :: stack) (placeholders raw.text) where
  chain := by
    rw [List.isChain_cons]
    exact ⟨fun outer houter => h.refers outer houter name (List.mem_cons_self ..), h.chain⟩
  refers x hx y hy := by
    cases hx
    exact ⟨raw, hraw, hy⟩

/-- Each variable of the list refers to the next one, and it ends where it starts. -/
def IsCycle (texts : List (String × Located)) (chain : List String) : Prop :=
  ∃ a mid, chain = a :: mid ++ [a] ∧ chain.IsChain (Refers texts)

/-- The stack up to a variable on it, turned around. -/
theorem chainFrom_eq {inner outer : List String} (h : name ∉ inner) :
    Variables.chainFrom (inner ++ name :: outer) name = (inner ++ [name]).reverse := by
  have hinner : ∀ x ∈ inner, (x != name) = true := by
    intro x hx
    rw [bne_iff_ne]
    exact fun heq => h (heq ▸ hx)
  rw [Variables.chainFrom, List.takeWhile_append_of_pos hinner,
    List.takeWhile_cons_of_neg (by simp), List.append_nil, List.reverse_append]
  rfl

theorem chainFrom_subset (h : name ∈ stack) : Variables.chainFrom stack name ⊆ stack := by
  intro x hx
  rcases List.mem_cons.mp hx with rfl | hx
  · exact h
  · exact (List.takeWhile_sublist _).subset (List.mem_reverse.mp hx)

/-- A variable on the stack that the innermost one refers to closes a cycle. -/
theorem StackPath.isCycle (h : StackPath texts stack (name :: names)) (hname : name ∈ stack) :
    IsCycle texts (Variables.chainFrom stack name ++ [name]) := by
  refine ⟨name, _, rfl, ?_⟩
  obtain ⟨inner, outer, rfl, hinner⟩ := List.eq_append_cons_of_mem hname
  rw [chainFrom_eq hinner, List.isChain_append]
  refine ⟨?_, List.isChain_singleton _, ?_⟩
  · rw [List.isChain_reverse]
    exact h.chain.prefix ⟨outer, by simp⟩
  · intro x hx y hy
    cases hy
    have hhead : x ∈ (inner ++ name :: outer).head? := by
      rw [List.getLast?_reverse] at hx
      cases inner <;> exact hx
    exact h.refers x hhead name (List.mem_cons_self ..)

/-- The variables of a cycle reach each other. -/
theorem IsCycle.connected {chain : List String} (h : IsCycle texts chain) {x y : String}
    (hx : x ∈ chain) (hy : y ∈ chain) : TransGen (Refers texts) x y := by
  obtain ⟨a, mid, rfl, hchain⟩ := h
  have hpairs := (hchain.imp fun _ _ => TransGen.single).pairwise
  rw [List.cons_append, List.pairwise_cons, List.pairwise_append] at hpairs
  obtain ⟨hfrom, -, -, hto⟩ := hpairs
  have hloop : TransGen (Refers texts) a a := hfrom a (by simp)
  have hxa : TransGen (Refers texts) x a := by
    rcases List.mem_append.mp hx with hx | hx
    · rcases List.mem_cons.mp hx with rfl | hx
      · exact hloop
      · exact hto x hx a (List.mem_singleton_self a)
    · rwa [List.mem_singleton.mp hx]
  have hay : TransGen (Refers texts) a y := by
    rcases List.mem_cons.mp hy with rfl | hy
    · exact hloop
    · exact hfrom y hy
  exact hxa.trans hay

end

namespace Variables

/-- What is known about variables is true. -/
structure Sound (s : Variables) : Prop where
  values : ∀ x v, s.values.lookup x = some v → IsValue s.texts x v
  failed : ∀ x ∈ s.failed, Declares s.texts x ∧ ¬ Resolvable s.texts x

/-- A value that was filled in is the right one. -/
theorem Sound.settle {s : Variables} {name out : String} {ok : Bool} {raw : Located} (h : s.Sound)
    (hraw : s.texts.lookup name = some raw) (hfilled : Filled s.texts (template raw.text) out ok) :
    (s.settle name out ok).Sound := by
  cases ok with
  | true =>
      refine ⟨fun x v hv => ?_, h.failed⟩
      change List.lookup x ((name, out) :: s.values) = some v at hv
      by_cases hx : x = name
      · subst hx
        rw [List.lookup_cons_self, Option.some.injEq] at hv
        exact hv ▸ hfilled.isValue hraw
      · rw [List.lookup_cons, beq_false_of_ne hx] at hv
        exact h.values x v hv
  | false =>
      refine ⟨h.values, fun x hx => ?_⟩
      rcases List.mem_cons.mp hx with rfl | hx
      · exact ⟨⟨raw, hraw⟩, hfilled.not_resolvable hraw⟩
      · exact h.failed x hx

/-- All variables of a cycle have failed. -/
theorem Sound.mark {s : Variables} {stack names : List String} {name : String} (h : s.Sound)
    (hpath : StackPath s.texts stack (name :: names)) (hname : name ∈ stack) :
    (s.mark (chainFrom stack name)).Sound := by
  refine ⟨h.values, fun x hx => ?_⟩
  rcases List.mem_append.mp hx with hx | hx
  · have hmem : x ∈ chainFrom stack name ++ [name] := List.mem_append_left _ hx
    have hcyclic : Cyclic s.texts x := (hpath.isCycle hname).connected hmem hmem
    exact ⟨hcyclic.declares, fun hresolvable => hresolvable.not_cyclic hcyclic⟩
  · exact h.failed x hx

/-- What is known about variables stays true while texts are filled in, and the texts are those
that the values of variables make. -/
theorem Fills.sound {stack : List String} {span : Span} {pieces : List TemplatePiece}
    {s s' : Variables} {out : String} {ok : Bool} {es : List Event}
    (h : Fills stack span pieces s out ok s' es) (hsound : s.Sound)
    (hpath : StackPath s.texts stack (namesIn pieces)) :
    s'.Sound ∧ Filled s.texts pieces out ok := by
  induction h with
  | nil => exact ⟨hsound, rfl, fun _ => nofun, nofun⟩
  | text _ ih =>
      obtain ⟨hsound', hfilled⟩ := ih hsound hpath
      exact ⟨hsound', hfilled.text⟩
  | undeclared hraw _ ih =>
      obtain ⟨hsound', hfilled⟩ := ih hsound hpath.tail
      exact ⟨hsound', hfilled.without fun hresolvable => not_declares_of_lookup hraw hresolvable.1⟩
  | known hraw hvalue _ ih =>
      obtain ⟨hsound', hfilled⟩ := ih hsound hpath.tail
      exact ⟨hsound', hfilled.value (hsound.values _ _ hvalue)⟩
  | failed hraw hvalue hfailed _ ih =>
      obtain ⟨hsound', hfilled⟩ := ih hsound hpath.tail
      exact ⟨hsound', hfilled.without (hsound.failed _ hfailed).2⟩
  | cyclic hraw hvalue hfailed hstack _ ih =>
      have hmarked := hsound.mark hpath hstack
      obtain ⟨hsound', hfilled⟩ := ih hmarked hpath.tail
      exact ⟨hsound', hfilled.without (hmarked.failed _ (List.mem_cons_self ..)).2⟩
  | @expanded stack span name out more start stop rest s s₁ s₂ ok ok' es es' raw hraw hvalue
      hfailed hstack hown hrest ihown ihrest =>
      have htexts := hown.texts_eq
      obtain ⟨hsound₁, hfilled₁⟩ := ihown hsound (hpath.push hraw)
      rw [← htexts] at hfilled₁ hraw
      have hsettled := hsound₁.settle hraw hfilled₁
      obtain ⟨hsound₂, hfilled₂⟩ := ihrest hsettled (by
        rw [texts_settle, htexts]
        exact hpath.tail)
      rw [texts_settle] at hfilled₂
      rw [← htexts]
      refine ⟨hsound₂, ?_⟩
      cases ok with
      | true => exact hfilled₂.value (hfilled₁.isValue hraw)
      | false =>
          rw [if_neg nofun, String.empty_append]
          exact hfilled₂.without (hfilled₁.not_resolvable hraw)

end Variables

end Netlist
