import Mathlib

/-!
# Lists related element by element

What `List.Forall₂` says of members, places and searches, and which lists are related.
-/

namespace Netlist

variable {α β γ : Type} {R : α → β → Prop} {l : List α} {r : List β}

theorem forall₂_exists_of_mem (h : List.Forall₂ R l r) {a : α} (ha : a ∈ l) : ∃ b ∈ r, R a b := by
  induction h with
  | nil => cases ha
  | cons hab _ ih =>
      rcases List.mem_cons.mp ha with rfl | ha
      · exact ⟨_, List.mem_cons_self .., hab⟩
      · obtain ⟨b, hb, hr⟩ := ih ha
        exact ⟨b, List.mem_cons_of_mem _ hb, hr⟩

theorem forall₂_exists_of_mem_right (h : List.Forall₂ R l r) {b : β} (hb : b ∈ r) :
    ∃ a ∈ l, R a b :=
  forall₂_exists_of_mem h.flip hb

theorem forall₂_getElem? (h : List.Forall₂ R l r) {k : Nat} {b : β} (hb : r[k]? = some b) :
    ∃ a, l[k]? = some a ∧ R a b := by
  induction h generalizing k with
  | nil => simp at hb
  | @cons a c _ _ hac _ ih =>
      cases k with
      | zero =>
          obtain rfl : c = b := Option.some.inj hb
          exact ⟨a, rfl, hac⟩
      | succ k => exact ih hb

/-- Related lists have related first hits. -/
theorem forall₂_find? {p : α → Bool} {q : β → Bool} (h : List.Forall₂ R l r)
    (hpq : ∀ a b, R a b → p a = q b) :
    (l.find? p = none ∧ r.find? q = none) ∨
      ∃ a b, l.find? p = some a ∧ r.find? q = some b ∧ R a b := by
  induction h with
  | nil => exact Or.inl ⟨rfl, rfl⟩
  | @cons a b _ _ hab _ ih =>
      cases hp : p a with
      | true => exact Or.inr ⟨a, b, by simp [hp], by simp [← hpq a b hab, hp], hab⟩
      | false => simpa [hp, ← hpq a b hab] using ih

theorem forall₂_trans {S : β → γ → Prop} {T : α → γ → Prop}
    (hT : ∀ a b c, R a b → S b c → T a c) {s : List γ}
    (h : List.Forall₂ R l r) (h' : List.Forall₂ S r s) : List.Forall₂ T l s := by
  induction h generalizing s with
  | nil =>
      cases h'
      exact .nil
  | cons hab _ ih =>
      cases h' with
      | cons hbc hrest => exact .cons (hT _ _ _ hab hbc) (ih hrest)

theorem forall₂_flatMap {f : γ → List α} {g : γ → List β} {s : List γ}
    (h : ∀ c ∈ s, List.Forall₂ R (f c) (g c)) : List.Forall₂ R (s.flatMap f) (s.flatMap g) := by
  induction s with
  | nil => exact .nil
  | cons c s ih =>
      obtain ⟨hc, hs⟩ := List.forall_mem_cons.mp h
      exact List.rel_append hc (ih hs)

theorem forall₂_filterMap {f : α → Option β} : ∀ {l : List α}, (∀ a ∈ l, (f a).isSome = true) →
    List.Forall₂ (fun a b => f a = some b) l (l.filterMap f)
  | [], _ => .nil
  | a :: l, h => by
      obtain ⟨ha, hl⟩ := List.forall_mem_cons.mp h
      obtain ⟨b, hb⟩ := Option.isSome_iff_exists.mp ha
      rw [List.filterMap_cons_some hb]
      exact .cons hb (forall₂_filterMap hl)

theorem eq_map_of_forall₂ {g : α → β} (h : List.Forall₂ (fun a b => b = g a) l r) :
    r = l.map g := by
  induction h with
  | nil => rfl
  | cons hab _ ih => rw [hab, ih, List.map_cons]

end Netlist
