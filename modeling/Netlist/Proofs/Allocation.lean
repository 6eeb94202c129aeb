import Netlist.Proofs.Ident

/-!
# Identifiers in the order of their allocation

The identifiers of one kind are given out with the numbers one, two and so on
(`Allocator.numbers_nextAll`), as long as there are less than 2³² of them.  So each is known by
its kind and its number (`Ident.Allocated`), and the order by these tells any two apart.
A map of such identifiers has only one list of its keys in that order.
-/

namespace Netlist

namespace Ident

/-- A kind and a number from one on, as identifiers are given out. -/
def Allocated (i : Ident) : Prop := ∃ (k : IdKind) (n : UInt32), n ≠ 0 ∧ i = ofNumber k n

theorem kind_ofNumber (k : IdKind) (n : UInt32) : (ofNumber k n).kind = k := rfl

theorem before_iff {a b : Ident} : a.before b = true ↔
    a.kind.byte < b.kind.byte ∨ a.kind = b.kind ∧ a.number < b.number := by
  rw [before]
  by_cases hk : a.kind = b.kind
  · simp [hk]
  · simp [hk]

theorem before_irrefl (a : Ident) : ¬a.before a = true := by
  rw [before_iff]
  exact not_or.mpr ⟨UInt8.lt_irrefl _, fun h => UInt32.lt_irrefl _ h.2⟩

theorem before_trans {a b c : Ident} (hab : a.before b = true) (hbc : b.before c = true) :
    a.before c = true := by
  rw [before_iff] at hab hbc ⊢
  rcases hab with hab | ⟨hkind, hab⟩
  · refine .inl ?_
    rcases hbc with hbc | ⟨hkind, -⟩
    · exact UInt8.lt_trans hab hbc
    · exact hkind ▸ hab
  · rw [hkind]
    exact hbc.imp_right fun h => ⟨h.1, UInt32.lt_trans hab h.2⟩

/-- Of two identifiers of that form one stands before the other, unless they are equal. -/
theorem Allocated.eq_of_not_before {a b : Ident} (ha : a.Allocated) (hb : b.Allocated)
    (hab : a.before b = false) (hba : b.before a = false) : a = b := by
  obtain ⟨k, m, -, rfl⟩ := ha
  obtain ⟨l, n, -, rfl⟩ := hb
  rw [← Bool.not_eq_true, before_iff, not_or, not_and, kind_ofNumber, kind_ofNumber,
    number_ofNumber, number_ofNumber] at hab hba
  have hbyte : k.byte = l.byte :=
    UInt8.le_antisymm (UInt8.not_lt.mp hba.1) (UInt8.not_lt.mp hab.1)
  have hkind : k = l := congrArg IdKind.mk hbyte
  have hnumber : m = n :=
    UInt32.le_antisymm (UInt32.not_lt.mp (hba.2 hkind.symm)) (UInt32.not_lt.mp (hab.2 hkind))
  rw [hkind, hnumber]

theorem not_before_of_compare {a b : Ident} (h : compare a b = .lt) : b.before a = false := by
  simp only [compare, compareLex, compareOn, Ordering.then_eq_lt] at h
  rw [← Bool.not_eq_true, before_iff, not_or, not_and]
  rcases h with hkind | ⟨hkind, hrest⟩
  · have hlt : a.kind.byte < b.kind.byte := compareOfLessAndEq_eq_lt.mp hkind
    exact ⟨UInt8.lt_asymm hlt, fun heq => absurd (heq ▸ hlt) (UInt8.lt_irrefl _)⟩
  · have hbyte : a.kind.byte = b.kind.byte := Std.LawfulEqCmp.eq_of_compare hkind
    refine ⟨hbyte ▸ UInt8.lt_irrefl _, fun _ => ?_⟩
    rcases hrest with hnumber | ⟨hnumber, -⟩
    · exact UInt32.lt_asymm (compareOfLessAndEq_eq_lt.mp hnumber)
    · have heq : a.number = b.number := Std.LawfulEqCmp.eq_of_compare hnumber
      exact heq ▸ UInt32.lt_irrefl _

theorem Allocated.before_of_compare {a b : Ident} (ha : a.Allocated) (hb : b.Allocated)
    (h : compare a b = .lt) : a.before b = true := by
  by_contra hab
  have heq := ha.eq_of_not_before hb (Bool.eq_false_iff.mpr hab) (not_before_of_compare h)
  exact IdMap.compare_self_ne_lt a (heq ▸ h)

end Ident

namespace Allocator

@[simp] theorem kind_next (a : Allocator) (k : IdKind) : (a.next k).1.kind = k := rfl

@[simp] theorem number_next (a : Allocator) (k : IdKind) : (a.next k).1.number = a.lastOf k + 1 :=
  Ident.number_ofNumber k _

/-- The identifiers that are given out for kinds, one after another. -/
def nextAll (a : Allocator) : List IdKind → List Ident
  | [] => []
  | k :: kinds => (a.next k).1 :: (a.next k).2.nextAll kinds

theorem kinds_nextAll (kinds : List IdKind) (a : Allocator) :
    (a.nextAll kinds).map Ident.kind = kinds := by
  induction kinds generalizing a with
  | nil => rfl
  | cons k kinds ih => rw [nextAll, List.map_cons, kind_next, ih]

theorem eq_ofNumber_of_mem {kinds : List IdKind} {a : Allocator} {id : Ident}
    (h : id ∈ a.nextAll kinds) : id = .ofNumber id.kind id.number := by
  induction kinds generalizing a with
  | nil => cases h
  | cons k kinds ih =>
      rcases List.mem_cons.mp h with rfl | h
      · rw [kind_next, number_next]
        rfl
      · exact ih h

/-- The numbers of one kind go on from the last one. -/
theorem numbers_nextAll {k : IdKind} (kinds : List IdKind) {a : Allocator}
    (hlimit : (a.lastOf k).toNat + kinds.count k < 2 ^ 32) :
    ((a.nextAll kinds).filter (·.kind == k)).map (·.number.toNat) =
      List.range' ((a.lastOf k).toNat + 1) (kinds.count k) := by
  induction kinds generalizing a with
  | nil => rfl
  | cons k' kinds ih =>
      rw [nextAll, List.filter_cons]
      by_cases hk : k' = k
      · subst hk
        rw [List.count_cons_self] at hlimit ⊢
        have hnext : (a.lastOf k' + 1).toNat = (a.lastOf k').toNat + 1 :=
          Below.toNat_next (by rw [idLimit]; omega)
        rw [if_pos (by simp), List.map_cons, ih (by rw [lastOf_next_self, hnext]; omega),
          number_next, lastOf_next_self, hnext, List.range'_succ]
      · rw [if_neg (by simpa using hk)]
        rw [List.count_cons_of_ne hk] at hlimit ⊢
        rw [ih (by rwa [lastOf_next_of_ne _ (Ne.symm hk)]), lastOf_next_of_ne _ (Ne.symm hk)]

theorem number_of_mem {kinds : List IdKind} {a : Allocator} {id : Ident}
    (h : id ∈ a.nextAll kinds) (hlimit : (a.lastOf id.kind).toNat + kinds.count id.kind < 2 ^ 32) :
    (a.lastOf id.kind).toNat < id.number.toNat := by
  have hmem : id ∈ (a.nextAll kinds).filter (·.kind == id.kind) :=
    List.mem_filter.mpr ⟨h, beq_self_eq_true _⟩
  have hnumber : id.number.toNat ∈
      List.range' ((a.lastOf id.kind).toNat + 1) (kinds.count id.kind) :=
    numbers_nextAll kinds hlimit ▸ List.mem_map_of_mem hmem
  exact (List.mem_range'_1.mp hnumber).1

theorem allocated_of_mem {kinds : List IdKind} {a : Allocator} {id : Ident}
    (h : id ∈ a.nextAll kinds) (hlimit : (a.lastOf id.kind).toNat + kinds.count id.kind < 2 ^ 32) :
    id.Allocated := by
  refine ⟨id.kind, id.number, fun hzero => ?_, eq_ofNumber_of_mem h⟩
  have hnumber := number_of_mem h hlimit
  rw [hzero] at hnumber
  exact Nat.not_lt_zero _ hnumber

/-- Of one kind, what is given out later comes later in the order. -/
theorem pairwise_nextAll {kinds : List IdKind} {a : Allocator}
    (hlimit : ∀ k, (a.lastOf k).toNat + kinds.count k < 2 ^ 32) :
    (a.nextAll kinds).Pairwise fun i j => i.kind = j.kind → i.before j = true := by
  induction kinds generalizing a with
  | nil => exact .nil
  | cons k kinds ih =>
      have hlast : ∀ k', ((a.next k).2.lastOf k').toNat + kinds.count k' < 2 ^ 32 := by
        intro k'
        have hk' := hlimit k'
        by_cases hk : k' = k
        · subst hk
          rw [List.count_cons_self] at hk'
          rw [lastOf_next_self, Below.toNat_next (by rw [idLimit]; omega)]
          omega
        · rwa [lastOf_next_of_ne _ hk, ← List.count_cons_of_ne (Ne.symm hk)]
      refine .cons (fun j hj hkind => ?_) (ih hlast)
      have hnumber := number_of_mem hj (hlast j.kind)
      rw [← hkind, kind_next, lastOf_next_self] at hnumber
      rw [Ident.before_iff, number_next, UInt32.lt_iff_toNat_lt (a := a.lastOf k + 1)]
      exact .inr ⟨hkind, hnumber⟩

end Allocator

namespace IdMap

variable {α : Type} {m : IdMap α}

theorem sorted_keys (m : IdMap α) : m.keys.Pairwise fun a b => b.before a = false :=
  Std.ExtTreeMap.ordered_keys.imp Ident.not_before_of_compare

theorem pairwise_keys (h : ∀ id ∈ m, id.Allocated) :
    m.keys.Pairwise fun a b => a.before b = true :=
  Std.ExtTreeMap.ordered_keys.imp_of_mem fun ha hb =>
    (h _ (Std.ExtTreeMap.mem_keys.mp ha)).before_of_compare (h _ (Std.ExtTreeMap.mem_keys.mp hb))

/-- However the keys are enumerated before they are sorted, they come in one order. -/
theorem eq_keys_of_sorted (h : ∀ id ∈ m, id.Allocated) {sorted : List Ident}
    (hperm : sorted.Perm m.keys) (hsorted : sorted.Pairwise fun a b => b.before a = false) :
    sorted = m.keys := by
  refine hperm.eq_of_pairwise (fun a b ha hb hab hba => ?_) hsorted m.sorted_keys
  exact (h a (Std.ExtTreeMap.mem_keys.mp (hperm.mem_iff.mp ha))).eq_of_not_before
    (h b (Std.ExtTreeMap.mem_keys.mp hb)) hba hab

end IdMap

/-- Identifiers that were given out differ from each other, and the order by kind and number
is the order in which those of a kind were given out.  It is the order of the keys of a map,
and the only one that a sort of them can have. -/
theorem nextAll_ordered (kinds : List IdKind) (hlimit : ∀ k, kinds.count k < 2 ^ 32) :
    let ids := Allocator.nextAll {} kinds
    ids.Nodup ∧ ids.map Ident.kind = kinds ∧
      (∀ k, (ids.filter (·.kind == k)).map (·.number.toNat) = List.range' 1 (kinds.count k)) ∧
      IsStrictTotalOrder { id // id ∈ ids } (fun a b => a.1.before b.1 = true) ∧
      ids.Pairwise (fun a b => a.kind = b.kind → a.before b = true) ∧
      ∀ {α : Type} (m : IdMap α), (∀ id ∈ m, id ∈ ids) →
        m.keys.Nodup ∧ (∀ id, id ∈ m.keys ↔ id ∈ m) ∧
        m.keys.Pairwise (fun a b => a.before b = true) ∧
        ∀ enumeration sorted : List Ident, enumeration.Perm m.keys → sorted.Perm enumeration →
          sorted.Pairwise (fun a b => b.before a = false) → sorted = m.keys := by
  intro ids
  have hstart : ∀ k, (Allocator.lastOf {} k).toNat + kinds.count k < 2 ^ 32 := fun k =>
    (Nat.zero_add _).trans_lt (hlimit k)
  have hpair := Allocator.pairwise_nextAll hstart
  have hids : ∀ id ∈ ids, id.Allocated := fun id hid =>
    Allocator.allocated_of_mem hid (hstart id.kind)
  refine ⟨hpair.imp ?_, Allocator.kinds_nextAll kinds {},
    fun k => Allocator.numbers_nextAll kinds (hstart k), ?_, hpair, fun m hm => ?_⟩
  · rintro a b hab rfl
    exact a.before_irrefl (hab rfl)
  · exact {
      trichotomous := fun a b hab hba => Subtype.ext ((hids _ a.2).eq_of_not_before (hids _ b.2)
        (Bool.eq_false_iff.mpr hab) (Bool.eq_false_iff.mpr hba))
      irrefl := fun a => a.1.before_irrefl
      trans := fun _ _ _ => Ident.before_trans }
  · have hkeys : ∀ id ∈ m, id.Allocated := fun id hid => hids id (hm id hid)
    exact ⟨Std.ExtTreeMap.nodup_keys, fun id => Std.ExtTreeMap.mem_keys, IdMap.pairwise_keys hkeys,
      fun enumeration sorted henum hperm => IdMap.eq_keys_of_sorted hkeys (hperm.trans henum)⟩

/-- Nets between modules, and a map of all of them. -/
theorem nextAll_ordered_nets :
    let ids := Allocator.nextAll {} [.module_, .net, .net, .module_]
    let m := IdMap.ofItems id ids
    ids.Nodup ∧ (ids.filter (·.kind == .net)).map (·.number.toNat) = [1, 2] ∧
      m.keys.Pairwise (fun a b => a.before b = true) := by
  intro ids m
  obtain ⟨hnodup, -, hnumbers, -, -, hkeys⟩ := nextAll_ordered [.module_, .net, .net, .module_]
    fun k => List.count_le_length.trans_lt (by decide)
  exact ⟨hnodup, hnumbers .net,
    (hkeys m fun id hid => by simpa using IdMap.mem_ofItems.mp hid).2.2.1⟩

end Netlist
