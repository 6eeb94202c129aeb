import Mathlib
import Netlist.Program.Basic

/-!
# Maps by identifier

What is known about the things of a map in the order of their identifiers: they are
the values of the map, and a property that tells them apart tells their
identifiers apart.  A thing with a later identifier than all others is the last of
them.
-/

namespace Netlist.IdMap

variable {α β : Type}

variable {m : IdMap α} {a : α}

theorem mem_items : a ∈ m.items ↔ ∃ k : Ident, m[k]? = some a := by
  rw [items, List.mem_map]
  constructor
  · rintro ⟨⟨k, b⟩, hkb, rfl⟩
    exact ⟨k, Std.ExtTreeMap.mem_toList_iff_getElem?_eq_some.mp hkb⟩
  · rintro ⟨k, hk⟩
    exact ⟨(k, a), Std.ExtTreeMap.mem_toList_iff_getElem?_eq_some.mpr hk, rfl⟩

theorem nodup_toList (m : IdMap α) : m.toList.Nodup := by
  have h := Std.ExtTreeMap.nodup_keys (t := m)
  rw [← Std.ExtTreeMap.map_fst_toList_eq_keys] at h
  exact h.of_map

/-- A key is at the same place as its value. -/
theorem getElem?_toList {n : Nat} {k : Ident} :
    m.toList[n]? = some (k, a) ↔ m.keys[n]? = some k ∧ m[k]? = some a := by
  rw [← Std.ExtTreeMap.map_fst_toList_eq_keys, List.getElem?_map]
  constructor
  · intro h
    rw [h]
    exact ⟨rfl, Std.ExtTreeMap.mem_toList_iff_getElem?_eq_some.mp (List.mem_of_getElem? h)⟩
  · rintro ⟨hk, ha⟩
    obtain ⟨⟨k', b⟩, hn, hkb⟩ := Option.map_eq_some_iff.mp hk
    simp only at hkb
    subst hkb
    have hb := Std.ExtTreeMap.mem_toList_iff_getElem?_eq_some.mp (List.mem_of_getElem? hn)
    rw [hn, Option.some.inj (ha.symm.trans hb)]

theorem getElem?_items {n : Nat} :
    m.items[n]? = some a ↔ ∃ k, m.keys[n]? = some k ∧ m[k]? = some a := by
  rw [items, List.getElem?_map, Option.map_eq_some_iff]
  constructor
  · rintro ⟨⟨k, b⟩, h, rfl⟩
    exact ⟨k, getElem?_toList.mp h⟩
  · rintro ⟨k, h⟩
    exact ⟨(k, a), getElem?_toList.mpr h, rfl⟩

theorem length_items (m : IdMap α) : m.items.length = m.keys.length := by
  rw [items, List.length_map, ← Std.ExtTreeMap.map_fst_toList_eq_keys, List.length_map]

/-- What was in a map stays there when a new identifier is added. -/
theorem getElem?_insert_of_not_mem {new k : Ident} {a b : α} (hnew : new ∉ m)
    (h : m[k]? = some a) : (m.insert new b)[k]? = some a := by
  rw [Std.ExtTreeMap.getElem?_insert, if_neg, h]
  intro heq
  rw [Std.LawfulEqCmp.eq_of_compare heq, Std.ExtTreeMap.mem_iff_isSome_getElem?, h] at hnew
  exact hnew rfl

theorem of_getElem?_insert {new k : Ident} {a b : α}
    (h : (m.insert new b)[k]? = some a) : (k = new ∧ a = b) ∨ m[k]? = some a := by
  rw [Std.ExtTreeMap.getElem?_insert] at h
  split at h
  · rename_i heq
    exact Or.inl ⟨(Std.LawfulEqCmp.eq_of_compare heq).symm, (Option.some.inj h).symm⟩
  · exact Or.inr h

theorem getElem?_foldl_insert (f : α → Ident) (k : Ident) : ∀ (l : List α) (m : IdMap α),
    (l.foldl (fun m a => m.insert (f a) a) m)[k]? = (l.reverse.find? (f · == k)).or m[k]?
  | [], m => by simp
  | a :: l, m => by
      rw [List.foldl_cons, getElem?_foldl_insert f k l, List.reverse_cons, List.find?_append,
        Option.or_assoc, Std.ExtTreeMap.getElem?_insert]
      by_cases heq : f a = k
      · subst heq
        simp [Std.ReflCmp.compare_self]
      · have hcmp : ¬ Ident.compare (f a) k = .eq := fun h => heq (Std.LawfulEqCmp.eq_of_compare h)
        simp [heq, hcmp]

/-- Of several things with the same identifier the last one counts. -/
theorem getElem?_ofItems (f : α → Ident) (items : List α) (k : Ident) :
    (ofItems f items)[k]? = items.reverse.find? (f · == k) := by
  rw [ofItems, getElem?_foldl_insert]
  simp

theorem mem_of_getElem?_ofItems {f : α → Ident} {items : List α} {k : Ident}
    (h : (ofItems f items)[k]? = some a) : a ∈ items ∧ f a = k := by
  rw [getElem?_ofItems] at h
  exact ⟨List.mem_reverse.mp (List.mem_of_find?_eq_some h), by simpa using List.find?_some h⟩

theorem mem_ofItems {f : α → Ident} {items : List α} {k : Ident} :
    k ∈ ofItems f items ↔ ∃ a ∈ items, f a = k := by
  rw [Std.ExtTreeMap.mem_iff_isSome_getElem?, getElem?_ofItems, List.find?_isSome]
  simp

/-- The things of a map differ in something exactly when it tells their identifiers
apart. -/
theorem nodup_map_items_iff (f : α → β) :
    (m.items.map f).Nodup ↔ ∀ (k₁ k₂ : Ident) (a₁ a₂ : α),
      m[k₁]? = some a₁ → m[k₂]? = some a₂ → f a₁ = f a₂ → k₁ = k₂ := by
  rw [items, List.map_map, List.nodup_map_iff_inj_on m.nodup_toList]
  constructor
  · intro h k₁ k₂ a₁ a₂ h₁ h₂ hf
    have := h (k₁, a₁) (Std.ExtTreeMap.mem_toList_iff_getElem?_eq_some.mpr h₁) (k₂, a₂)
      (Std.ExtTreeMap.mem_toList_iff_getElem?_eq_some.mpr h₂) hf
    exact congrArg Prod.fst this
  · rintro h ⟨k₁, a₁⟩ h₁ ⟨k₂, a₂⟩ h₂ hf
    have h₁ := Std.ExtTreeMap.mem_toList_iff_getElem?_eq_some.mp h₁
    have h₂ := Std.ExtTreeMap.mem_toList_iff_getElem?_eq_some.mp h₂
    have hk : k₁ = k₂ := h k₁ k₂ a₁ a₂ h₁ h₂ hf
    subst hk
    rw [Option.some.inj (h₁.symm.trans h₂)]

/-- A relation that goes both ways and holds of a thing and itself holds along the list
exactly when it holds between any two things of the map. -/
theorem pairwise_items_iff {R : α → α → Prop} (hsymm : ∀ a b, R a b → R b a) (hrefl : ∀ a, R a a) :
    m.items.Pairwise R ↔ ∀ (k₁ k₂ : Ident) (a₁ a₂ : α),
      m[k₁]? = some a₁ → m[k₂]? = some a₂ → R a₁ a₂ := by
  constructor
  · intro h k₁ k₂ a₁ a₂ h₁ h₂
    have : Std.Symm R := ⟨hsymm⟩
    exact h.forall_of_forall (fun a _ => hrefl a) (mem_items.mpr ⟨k₁, h₁⟩)
      (mem_items.mpr ⟨k₂, h₂⟩)
  · intro h
    refine List.pairwise_of_forall_mem_list fun a ha b hb => ?_
    obtain ⟨k₁, h₁⟩ := mem_items.mp ha
    obtain ⟨k₂, h₂⟩ := mem_items.mp hb
    exact h k₁ k₂ a b h₁ h₂

theorem compare_self_ne_lt (k : Ident) : Ident.compare k k ≠ .lt := by
  have hself : Ident.compare k k = .eq := Std.ReflCmp.compare_self
  rw [hself]
  decide

/-- A thing whose identifier is after all others comes last. -/
theorem items_insert_of_lt {new : Ident}
    (h : ∀ k ∈ m, Ident.compare k new = .lt) : items (m.insert new a) = m.items ++ [a] := by
  have hlt : ∀ e ∈ m.toList, Ident.compare e.1 new = .lt := fun e he =>
    h e.1 (Std.ExtTreeMap.mem_iff_isSome_getElem?.mpr
      (Option.isSome_of_eq_some (Std.ExtTreeMap.mem_toList_iff_getElem?_eq_some.mp he)))
  have hnodup : (m.toList ++ [(new, a)]).Nodup := by
    refine List.nodup_append.mpr ⟨m.nodup_toList, List.nodup_singleton _, ?_⟩
    rintro e he f hf rfl
    rw [List.mem_singleton.mp hf] at he
    exact compare_self_ne_lt new (hlt _ he)
  have hperm : (m.insert new a).toList.Perm (m.toList ++ [(new, a)]) := by
    refine (List.perm_ext_iff_of_nodup (nodup_toList _) hnodup).mpr ?_
    rintro ⟨k, b⟩
    rw [List.mem_append, List.mem_singleton, Std.ExtTreeMap.mem_toList_iff_getElem?_eq_some,
      Std.ExtTreeMap.mem_toList_iff_getElem?_eq_some]
    constructor
    · intro hk
      rcases of_getElem?_insert hk with ⟨rfl, rfl⟩ | hk
      · exact Or.inr rfl
      · exact Or.inl hk
    · rintro (hk | heq)
      · exact getElem?_insert_of_not_mem (fun hin => compare_self_ne_lt new (h new hin)) hk
      · cases heq
        exact Std.ExtTreeMap.getElem?_insert_self
  have hsorted : (m.toList ++ [(new, a)]).Pairwise fun e f => Ident.compare e.1 f.1 = .lt := by
    refine List.pairwise_append.mpr
      ⟨Std.ExtTreeMap.ordered_keys_toList, List.pairwise_singleton _ _, fun e he f hf => ?_⟩
    rw [List.mem_singleton.mp hf]
    exact hlt e he
  have heq : (m.insert new a).toList = m.toList ++ [(new, a)] := by
    refine List.Perm.eq_of_pairwise (fun e f _ _ hef hfe => ?_)
      Std.ExtTreeMap.ordered_keys_toList hsorted hperm
    exact absurd (Std.TransCmp.lt_trans hef hfe) (compare_self_ne_lt e.1)
  rw [items, heq, List.map_append]
  rfl

end Netlist.IdMap
