import Netlist.Proofs.IdMap

/-!
# Identifiers that were given out

An identifier that was given out can be read back: it has the kind and the number that it was
made from (`Ident.number_ofNumber`).  A map whose identifiers were given out one after
another (`Numbered`) never meets the next one again, as long as it holds less than
2³² things: the numbers wrap around after that.  Until then the order of the identifiers is
the order in which they were given out (`Below.items_insert`).
-/

namespace Netlist

/-! ## Reading an identifier back -/

namespace Ident

theorem ofNat_toUInt8_of_isDigit {c : Char} (h : c.isDigit = true) :
    Char.ofNat c.toUInt8.toNat = c := by
  have hlt : c.toNat < 256 := by
    simp only [Char.isDigit, Bool.and_eq_true, decide_eq_true_eq] at h
    have hle : c.val ≤ 57 := h.2
    have hnat : c.toNat ≤ 57 := UInt32.le_iff_toNat_le.mp hle
    omega
  have hnat : c.toUInt8.toNat = c.toNat := by
    rw [Char.toUInt8, UInt32.toNat_toUInt8]
    exact Nat.mod_eq_of_lt hlt
  rw [hnat, Char.ofNat_toNat]

@[simp] theorem number_ofNumber (k : IdKind) (n : UInt32) : (ofNumber k n).number = n := by
  have hdigits : ((Nat.toDigits 10 n.toNat).map Char.toUInt8).map (fun b => Char.ofNat b.toNat) =
      Nat.toDigits 10 n.toNat := by
    rw [List.map_map]
    refine (List.map_congr_left fun c hc => ?_).trans (List.map_id _)
    exact ofNat_toUInt8_of_isDigit (Nat.isDigit_of_mem_toDigits (by decide) (by decide) hc)
  have hlt : n.toNat < 0x100000000 := n.toNat_lt
  rw [number, ofNumber, List.tail_cons, hdigits, Decimal.readUInt32?, Decimal.readNat?_toDigits,
    Option.filter_some, if_pos (by simpa using hlt), Option.map_some, Option.getD_some,
    UInt32.ofNat_toNat]

theorem ofNumber_inj {k : IdKind} {a b : UInt32} : ofNumber k a = ofNumber k b ↔ a = b := by
  constructor
  · intro h
    rw [← number_ofNumber k a, h, number_ofNumber]
  · rintro rfl
    rfl

/-- Of one kind, the identifiers are in the order of the numbers. -/
theorem compare_ofNumber {k : IdKind} {a b : UInt32} (h : a < b) :
    compare (ofNumber k a) (ofNumber k b) = .lt := by
  have hbyte : Ord.compare k.byte k.byte = .eq := Std.ReflCmp.compare_self
  have hkind : compareOn (fun i : Ident => i.kind.byte) (ofNumber k a) (ofNumber k b) = .eq := hbyte
  have hnumber : compareOn number (ofNumber k a) (ofNumber k b) = .lt := by
    rw [compareOn, number_ofNumber, number_ofNumber]
    exact compareOfLessAndEq_eq_lt.mpr h
  rw [compare, compareLex, hkind, compareLex, hnumber]
  rfl

end Ident

/-! ## Giving identifiers out -/

namespace Allocator

@[simp] theorem lastOf_next_self (a : Allocator) (k : IdKind) :
    (a.next k).2.lastOf k = a.lastOf k + 1 := by
  simp [next, lastOf]

theorem lookup_filter_ne {k k' : IdKind} (h : k' ≠ k) : ∀ l : List (IdKind × UInt32),
    (l.filter fun e => e.1 != k).lookup k' = l.lookup k'
  | [] => rfl
  | (k₁, n) :: l => by
      rw [List.filter_cons, List.lookup_cons]
      by_cases hk : k₁ = k
      · subst hk
        have hne : (k' == k₁) = false := by simpa using h
        simp [hne, lookup_filter_ne h l]
      · simp [hk, List.lookup_cons, lookup_filter_ne h l]

@[simp] theorem lastOf_next_of_ne (a : Allocator) {k k' : IdKind} (h : k' ≠ k) :
    (a.next k).2.lastOf k' = a.lastOf k' := by
  have hne : (k' == k) = false := by simpa using h
  simp [next, lastOf, List.lookup_cons, hne, lookup_filter_ne h]

end Allocator

/-! ## Numbered maps -/

/-- How many numbers there are. -/
def idLimit : Nat := 2 ^ 32

/-- The identifiers of a map are those given out after a number, up to the last one. -/
structure Numbered {α : Type} (kind : IdKind) (start last : UInt32) (m : IdMap α) : Prop where
  /-- As many were given out as there are things. -/
  last_eq : last = start + UInt32.ofNat m.size
  /-- The identifiers are those. -/
  exists_number : ∀ id ∈ m, ∃ j, 0 < j ∧ j ≤ m.size ∧
    id = Ident.ofNumber kind (start + UInt32.ofNat j)

namespace Numbered

variable {α : Type} {kind : IdKind} {start last : UInt32} {m : IdMap α}

theorem empty (kind : IdKind) (start : UInt32) : Numbered kind start start (∅ : IdMap α) := by
  refine ⟨?_, fun id hid => ?_⟩
  · simp
  · exact absurd hid Std.ExtTreeMap.not_mem_empty

/-- The next identifier is new. -/
theorem not_mem (h : Numbered kind start last m) (hsize : m.size < idLimit) :
    Ident.ofNumber kind (last + 1) ∉ m := by
  intro hmem
  obtain ⟨j, hpos, hle, heq⟩ := h.exists_number _ hmem
  have hnat := congrArg UInt32.toNat (Ident.ofNumber_inj.mp heq)
  rw [h.last_eq, add_assoc] at hnat
  simp only [UInt32.toNat_add, UInt32.toNat_ofNat', UInt32.toNat_one] at hnat
  have hstart := start.toNat_lt
  rw [idLimit] at hsize
  omega

theorem insert (h : Numbered kind start last m) (hsize : m.size < idLimit) (a : α) :
    Numbered kind start (last + 1) (m.insert (Ident.ofNumber kind (last + 1)) a) := by
  have hnew : m.contains (Ident.ofNumber kind (last + 1)) = false := by
    rw [← Bool.not_eq_true, Std.ExtTreeMap.contains_iff_mem]
    exact h.not_mem hsize
  have hcard : (m.insert (Ident.ofNumber kind (last + 1)) a).size = m.size + 1 := by
    rw [Std.ExtTreeMap.size_insert, hnew]
    rfl
  have hlast : last + 1 = start + UInt32.ofNat (m.size + 1) := by
    rw [h.last_eq, UInt32.ofNat_add, add_assoc]
    rfl
  refine ⟨by rw [hcard, hlast], fun id hid => ?_⟩
  rw [hcard]
  rcases Std.ExtTreeMap.mem_insert.mp hid with heq | hid
  · refine ⟨m.size + 1, Nat.succ_pos _, le_refl _, ?_⟩
    rw [← Std.LawfulEqCmp.eq_of_compare heq, hlast]
  · obtain ⟨j, hpos, hle, rfl⟩ := h.exists_number id hid
    exact ⟨j, hpos, Nat.le_succ_of_le hle, rfl⟩

end Numbered

/-! ## Maps in the order of their making -/

/-- The identifiers of a map are of a kind, and none comes after the last one. -/
def Below {α : Type} (kind : IdKind) (last : UInt32) (m : IdMap α) : Prop :=
  ∀ id ∈ m, ∃ n ≤ last, id = Ident.ofNumber kind n

namespace Below

variable {α : Type} {kind : IdKind} {last : UInt32} {m : IdMap α}

theorem toNat_next (hlast : last.toNat + 1 < idLimit) : (last + 1).toNat = last.toNat + 1 := by
  rw [UInt32.toNat_add, UInt32.toNat_one]
  exact Nat.mod_eq_of_lt hlast

theorem lt_next (hlast : last.toNat + 1 < idLimit) : last < last + 1 := by
  rw [UInt32.lt_iff_toNat_lt, toNat_next hlast]
  exact Nat.lt_succ_self _

theorem insert (h : Below kind last m) (hlast : last.toNat + 1 < idLimit) (a : α) :
    Below kind (last + 1) (m.insert (Ident.ofNumber kind (last + 1)) a) := by
  intro id hid
  rcases Std.ExtTreeMap.mem_insert.mp hid with heq | hid
  · exact ⟨last + 1, UInt32.le_refl _, (Std.LawfulEqCmp.eq_of_compare heq).symm⟩
  · obtain ⟨n, hn, rfl⟩ := h id hid
    exact ⟨n, UInt32.le_trans hn (UInt32.le_of_lt (lt_next hlast)), rfl⟩

/-- The next thing is the last one. -/
theorem items_insert (h : Below kind last m) (hlast : last.toNat + 1 < idLimit) (a : α) :
    IdMap.items (m.insert (Ident.ofNumber kind (last + 1)) a) = m.items ++ [a] := by
  refine IdMap.items_insert_of_lt fun id hid => ?_
  obtain ⟨n, hn, rfl⟩ := h id hid
  exact Ident.compare_ofNumber (UInt32.lt_of_le_of_lt hn (lt_next hlast))

end Below

end Netlist
