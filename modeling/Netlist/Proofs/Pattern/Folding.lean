import Netlist.Proofs.Pattern.Runs
import Netlist.Proofs.Pattern.Writable

/-!
# Parts folded into a group

The last parts of a run are written as one group (`toList_renderGroup`): a range when they
are consecutive numbers and an enumeration otherwise.  Read again, the group has the values
that were put into it (`Foldable.exists_group`).  The one exception is an enumeration that
starts with `@`: it is taken for a reference, to a name that cannot be one
(`Foldable.readGroup_of_at`).
-/

namespace Netlist.Pattern

/-- Parts of one kind that can be written as a group. -/
structure Foldable (limit : Nat) (parts : List Part) : Prop where
  two_le : 2 ≤ parts.length
  le_limit : parts.length ≤ limit
  writable : ∀ p ∈ parts, p.Writable
  sameKind : ∀ p ∈ parts, ∀ q ∈ parts, p.sameKind q = true

/-- The brackets of the group that parts are written as and what stands between them. -/
def groupShape (parts : List Part) : Delimiter × List Char :=
  if isContiguous parts then
    (.square, (Decimal.ofInt ((parts.head?.map Part.value).getD 0)).toList ++
      ':' :: (Decimal.ofInt ((parts.getLast?.map Part.value).getD 0)).toList)
  else (.angle, [','].intercalate (parts.map (·.text.toList)))

/-- The parts start with a text that is taken for a reference. -/
def LooksNamed (parts : List Part) : Prop := ∃ p ∈ parts.head?, p.text.toList.head? = some '@'

instance : DecidablePred LooksNamed := fun parts =>
  inferInstanceAs (Decidable (∃ p ∈ parts.head?, p.text.toList.head? = some '@'))

theorem toList_renderGroup (parts : List Part) : (renderGroup parts).toList =
    (groupShape parts).1.opening :: ((groupShape parts).2 ++ [(groupShape parts).1.closing]) := by
  cases hcontiguous : isContiguous parts with
  | false =>
      rw [renderGroup, groupShape, hcontiguous]
      simp [Delimiter.opening, Delimiter.closing, String.toList_intercalate, Function.comp_def]
  | true =>
      cases parts with
      | nil => cases hcontiguous
      | cons p rest =>
          rw [renderGroup, groupShape, hcontiguous, List.getLast?_cons]
          simp [Delimiter.opening, Delimiter.closing]

/-! ## Enumerations -/

variable {parts : List Part} {limit : Nat}

theorem Foldable.ne_nil (h : Foldable limit parts) :
    parts ≠ [] :=
  List.length_pos_iff.mp (Nat.lt_of_lt_of_le Nat.two_pos h.two_le)

theorem Foldable.eq_cons_cons (h : Foldable limit parts) :
    ∃ p q rest, parts = p :: q :: rest := by
  obtain _ | ⟨p, _ | ⟨q, rest⟩⟩ := parts
  · exact absurd rfl h.ne_nil
  · exact absurd h.two_le (by simp)
  · exact ⟨p, q, rest, rfl⟩

theorem Foldable.splitOn_intercalate (h : Foldable limit parts) :
    ([','].intercalate (parts.map (·.text.toList))).splitOn ',' = parts.map (·.text.toList) := by
  refine List.splitOn_intercalate ',' ?_ (by simpa using h.ne_nil)
  intro l hl
  obtain ⟨p, hp, rfl⟩ := List.mem_map.mp hl
  exact (h.writable p hp).no_comma

/-- An enumeration of parts is read as those parts. -/
theorem Foldable.readEnumeration (h : Foldable limit parts) (raw : String) (start stop : Nat) :
    ∃ g, (readEnumeration raw ([','].intercalate (parts.map (·.text.toList))) start stop).1 =
      some g ∧ g.items.map Part.text = parts.map Part.text := by
  have hitems : ∀ item ∈ ([','].intercalate (parts.map (·.text.toList))).splitOn ',',
      ∃ c ∈ item, Text.isBlank c = false := by
    rw [h.splitOn_intercalate]
    intro item hitem
    obtain ⟨p, hp, rfl⟩ := List.mem_map.mp hitem
    exact (h.writable p hp).exists_not_blank
  refine ⟨_, readEnumeration_of_items hitems raw start stop, ?_⟩
  rw [h.splitOn_intercalate, List.map_map, List.map_map]
  refine List.map_congr_left fun p hp => ?_
  show String.ofList (Text.trimChars p.text.toList) = p.text
  rw [(h.writable p hp).trimmed, String.ofList_toList]

/-- What stands between the commas starts as the first part does. -/
theorem Foldable.head?_intercalate (h : Foldable limit parts) :
    ([','].intercalate (parts.map (·.text.toList))).head? = some '@' ↔ LooksNamed parts := by
  cases parts with
  | nil => exact absurd rfl h.ne_nil
  | cons p rest =>
      have hp := (h.writable p (List.mem_cons_self ..)).ne_nil
      have hhead : ([','].intercalate ((p :: rest).map (·.text.toList))).head? =
          p.text.toList.head? := by
        cases rest with
        | nil => simp
        | cons q rest =>
            rw [List.map_cons, List.map_cons, List.intercalate_cons_cons, List.append_assoc]
            exact List.head?_append_of_ne_nil _ hp
      rw [hhead, LooksNamed]
      simp

/-! ## Ranges -/

/-- Numbers that go up or down by one from `m` are the values of a range from `m`. -/
theorem exists_rangeItems {m count : Nat} {step : Int} (hpos : 0 < count)
    (hstep : step = 1 ∨ step = -1) (h : 0 ≤ m + step * count) :
    ∃ n : Nat, (n : Int) = m + step * count ∧ ((m : Int) - n).natAbs = count ∧
      ((List.range (count + 1)).map fun k => Part.number (m + step * (k : Nat))) =
        rangeItems m n := by
  rcases hstep with rfl | rfl
  · refine ⟨m + count, by omega, by omega, ?_⟩
    rw [rangeItems, if_neg (by omega), Nat.add_sub_cancel_left]
    simp
  · refine ⟨m - count, by omega, by omega, ?_⟩
    rw [rangeItems, if_pos (Nat.sub_le m count), Nat.sub_sub_self (by omega)]
    refine List.map_congr_left fun k _ => ?_
    simp only [Part.number.injEq, Int.ofNat_eq_natCast]
    omega

theorem isNumber_of_sameKind {p q : Part} (h : p.sameKind q = true) (hp : p.isNumber = true) :
    q.isNumber = true := by
  cases p <;> cases q <;> simp_all [Part.sameKind, Part.isNumber]

/-- Parts that are consecutive numbers are the values of the range between the first and the
last of them. -/
theorem Foldable.exists_range (h : Foldable limit parts)
    (hcontiguous : isContiguous parts = true) : ∃ m n : Nat, m < 2 ^ 63 ∧ n < 2 ^ 63 ∧
      parts = rangeItems m n ∧ ((m : Int) - n).natAbs < limit ∧
      groupShape parts =
        (.square, (Decimal.ofInt m).toList ++ ':' :: (Decimal.ofInt n).toList) := by
  obtain ⟨p, q, rest, rfl⟩ := h.eq_cons_cons
  have hshape := hcontiguous
  simp only [isContiguous, Bool.and_eq_true, Bool.or_eq_true, beq_iff_eq] at hcontiguous
  obtain ⟨⟨hnumber, hstep⟩, hsteps⟩ := hcontiguous
  generalize Decimal.wrap64 (q.value - p.value) = step at hstep hsteps
  have hparts := eq_map_range (fun r hr => ⟨isNumber_of_sameKind
    (h.sameKind p (List.mem_cons_self ..) r hr) hnumber, (h.writable r hr).value_nonneg,
    (h.writable r hr).value_lt⟩) hsteps
  have hp := h.writable p (List.mem_cons_self ..)
  obtain ⟨m, hm⟩ := Int.eq_ofNat_of_zero_le hp.value_nonneg
  rw [hm, List.length_cons] at hparts
  have hlast : (p :: q :: rest).getLast? = some (.number (m + step * (rest.length + 1 : Nat))) := by
    rw [hparts, List.getLast?_map, List.getLast?_range]
    simp
  have hbounds := h.writable _ (List.mem_of_getLast? hlast)
  obtain ⟨n, hn, hcount, hrange⟩ := exists_rangeItems (Nat.succ_pos rest.length) hstep
    hbounds.value_nonneg
  have hlength := h.le_limit
  have hlt := hp.value_lt
  have hlt' : (n : Int) < 2 ^ 63 := hn ▸ hbounds.value_lt
  refine ⟨m, n, by omega, by omega, hparts.trans hrange, ?_, ?_⟩
  · rw [hcount]
    simpa using hlength
  · rw [groupShape, hshape, if_pos rfl, hlast, List.head?_cons]
    simp only [Option.map_some, Option.getD_some, hm]
    rw [hn]
    rfl

theorem isInt64Literal_ofInt {n : Nat} (h : n < 2 ^ 63) :
    Decimal.IsInt64Literal (Text.trimChars (Decimal.ofInt n).toList) n := by
  have htrimmed := (Part.writable_number h).trimmed
  rw [show Text.trimChars (Decimal.ofInt n).toList = (Decimal.ofInt n).toList from htrimmed]
  exact .unsigned (Decimal.isNumeral_ofInt n) h

/-! ## Any group -/

theorem Foldable.plain_content (h : Foldable limit parts) :
    Plain (groupShape parts).2 := by
  cases hcontiguous : isContiguous parts with
  | true =>
      obtain ⟨m, n, hm, hn, -, -, hshape⟩ := h.exists_range hcontiguous
      rw [hshape]
      exact (plain_of_isInt64Literal (isInt64Literal_ofInt hm)).1.append
        ((plain_of_isInt64Literal (isInt64Literal_ofInt hn)).1.cons (by decide))
  | false =>
      rw [groupShape, hcontiguous]
      intro c hc
      rcases Text.eq_or_mem_of_mem_intercalate hc with rfl | ⟨l, hl, hc⟩
      · decide
      · obtain ⟨p, hp, rfl⟩ := List.mem_map.mp hl
        exact (h.writable p hp).plain c hc

/-- A group that does not look like a reference is read as the parts it was made of. -/
theorem Foldable.exists_group (h : Foldable limit parts)
    (hnamed : ¬ LooksNamed parts) (lookup : String → NamedPattern) (raw : String) (pos : Nat) :
    ∃ g, groupAt lookup raw limit pos (groupShape parts).1 (groupShape parts).2 = some g ∧
      g.items.map Part.text = parts.map Part.text := by
  cases hcontiguous : isContiguous parts with
  | true =>
      obtain ⟨m, n, hm, hn, hparts, hlimit, hshape⟩ := h.exists_range hcontiguous
      rw [hshape]
      refine ⟨_, readRange_of_bounds (isInt64Literal_ofInt hm) (isInt64Literal_ofInt hn) hlimit raw
        _ _, ?_⟩
      rw [hparts]
  | false =>
      have hhead := mt h.head?_intercalate.mp hnamed
      rw [groupShape, hcontiguous, groupAt, if_neg Bool.false_ne_true, readGroup_angle hhead]
      exact h.readEnumeration raw _ _

/-- Numbers do not look like references. -/
theorem Foldable.isContiguous_of_looksNamed
    (h : Foldable limit parts) (hnamed : LooksNamed parts) : isContiguous parts = false := by
  rw [← Bool.not_eq_true]
  intro hcontiguous
  obtain ⟨m, n, -, -, hparts, -⟩ := h.exists_range hcontiguous
  obtain ⟨p, hp, hat⟩ := hnamed
  have hmem := List.mem_of_head? hp
  rw [hparts] at hmem
  obtain ⟨k, rfl, -⟩ := exists_of_mem_rangeItems hmem
  have hdigit := (Decimal.isNumeral_ofInt k).digits '@' (List.mem_of_head? hat)
  exact absurd hdigit (by decide)

/-- A group that looks like a reference is taken for one, to a name that holds a comma. -/
theorem Foldable.readGroup_of_at (h : Foldable limit parts)
    (hnamed : LooksNamed parts) : ∃ name : String,
      ",".intercalate (parts.map Part.text) = "@" ++ name ∧
      ∀ lookup raw pos, ∃ stop, readGroup lookup raw limit (groupShape parts).1 (groupShape parts).2
        pos = (none, [⟨.invalidReference name, pos, stop⟩]) := by
  obtain ⟨name, hname⟩ := List.head?_eq_some_iff.mp (h.head?_intercalate.mpr hnamed)
  have hcomma : ',' ∈ name := by
    obtain ⟨p, q, rest, rfl⟩ := h.eq_cons_cons
    have hmem : ',' ∈ [','].intercalate ((p :: q :: rest).map (·.text.toList)) := by
      simp [List.intercalate_cons_cons]
    rw [hname] at hmem
    simpa using hmem
  have haxis : isAxisName (String.ofList name) = false := by
    rw [← Bool.not_eq_true]
    intro haxis
    have hchar := isNameChar_of_isAxisName haxis ',' (by rwa [String.toList_ofList])
    exact absurd hchar (by decide)
  have hshape : groupShape parts = (.angle, '@' :: name) := by
    rw [groupShape, ← hname, h.isContiguous_of_looksNamed hnamed]
    rfl
  refine ⟨String.ofList name, ?_, fun lookup raw pos => ?_⟩
  · rw [← String.toList_inj]
    simpa [String.toList_intercalate, Function.comp_def] using hname
  · rw [hshape, readGroup, readNamed, haxis]
    exact ⟨_, rfl⟩

end Netlist.Pattern
