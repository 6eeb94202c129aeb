import Netlist.Proofs.Axis.Alignment

/-!
# Binding as projection

What fully named expressions stand for are grids, so binding them is an alignment of
grids.  A binding that succeeds is a projection (`IsProjection`): each endpoint atom goes
to the one net atom with its values on the shared axes, and the number of that atom is
the sum of the ordinals of these values, each times the lengths of the axes after it.
-/

namespace Netlist.Axis

open Pattern

/-! ## Projections -/

/-- `o` is the ordinal, on axis `k`, of the value at the place of that axis. -/
def IsOrdinal (axes : List Pattern.Axis) (places : List Nat) (parts : List Part) (k o : Nat) :
    Prop :=
  ∃ axis place part, axes[k]? = some axis ∧ places[k]? = some place ∧
    parts[place]? = some part ∧ axis.values[o]? = some part

/-- A binding that takes each endpoint atom to the one net atom with its values at the places,
whose number is the sum of their ordinals times the lengths of the axes after them. -/
structure IsProjection (net endpoint : Expansion) (places : List Nat) (b : Binding) : Prop where
  /-- Every endpoint atom is bound. -/
  length_eq : b.netIndex.length = endpoint.length
  /-- The number of its net atom is spelled by the ordinals. -/
  index_eq : ∀ (i : Nat) (a : Atom), endpoint.atoms[i]? = some a → ∃ ord : Nat → Nat,
    (∀ k < net.axes.length, IsOrdinal net.axes places a.parts k (ord k)) ∧
      b.netIndex[i]? = some (∑ k ∈ Finset.range net.axes.length,
        ord k * ((net.axes.map (·.length)).drop (k + 1)).prod)
  /-- The net atom is the only one with the values at the places. -/
  atom_iff : ∀ (i : Nat) (a : Atom), endpoint.atoms[i]? = some a → ∀ j,
    b.netIndex[i]? = some j ↔ ∃ n : Atom, net.atoms[j]? = some n ∧ n.parts = select places a.parts

section

variable {net endpoint : Expansion} (hnet : net.IsGrid) (hep : endpoint.IsGrid)
  {places : List Nat} (hplaces : IsEmbedding net.axisNames endpoint.axisNames places)

include hep hplaces

theorem length_select_parts {a : Atom} (ha : a ∈ endpoint.atoms) :
    (select places a.parts).length = net.axes.length := by
  rw [length_select, places_length hplaces]
  rw [length_parts hep ha]
  exact places_lt hplaces

/-- The ordinals of an atom are the places of its parts on the axes. -/
theorem isOrdinal_ordinals {a : Atom} (ha : a ∈ endpoint.atoms)
    (hmem : List.Forall₂ (· ∈ ·) (select places a.parts) (valueColumns net)) {k : Nat}
    (hk : k < net.axes.length) : IsOrdinal net.axes places a.parts k
      ((ordinals (valueColumns net) (select places a.parts)).getD k 0) := by
  have hk' : k < (select places a.parts).length := by rwa [length_select_parts hep hplaces ha]
  have hkp : k < places.length := by rwa [places_length hplaces]
  have hkc : k < (valueColumns net).length := by rwa [valueColumns, List.length_map]
  have hlt : ∀ k ∈ places, k < a.parts.length := by
    rw [length_parts hep ha]
    exact places_lt hplaces
  have hpart := getElem?_select hlt k
  rw [List.getElem?_eq_getElem hk', List.getElem?_eq_getElem hkp, Option.bind_some] at hpart
  refine ⟨net.axes[k], places[k], (select places a.parts)[k], List.getElem?_eq_getElem hk,
    List.getElem?_eq_getElem hkp, hpart.symm, ?_⟩
  have hin : (select places a.parts)[k] ∈ net.axes[k].values := by
    simpa [valueColumns] using hmem.get hk' hkc
  have hord : (ordinals (valueColumns net) (select places a.parts)).getD k 0 =
      net.axes[k].values.idxOf (select places a.parts)[k] := by
    simp [ordinals, valueColumns, hk, hk']
  rw [hord, List.getElem?_eq_getElem (List.idxOf_lt_length_of_mem hin), List.getElem_idxOf]

include hnet

/-- Axes that fit give a projection. -/
theorem isProjection_of_fits (hfits : Fits net endpoint places) :
    IsProjection net endpoint places
      ⟨.axis, endpoint.atoms.map fun a => target net (select places a.parts)⟩ := by
  have hall := (sharedValues_iff hep hplaces).mp hfits.values
  refine ⟨List.length_map _, fun i a ha => ?_, fun i a ha j => ?_⟩
  · have hmem := List.mem_of_getElem? ha
    refine ⟨_, fun k hk => isOrdinal_ordinals hep hplaces hmem (hall a hmem) hk, ?_⟩
    rw [List.getElem?_map, ha, Option.map_some, target, rank_eq_sum, List.length_map]
    rw [ordinals, List.length_zipWith, length_select_parts hep hplaces hmem, valueColumns,
      List.length_map, List.length_map, Nat.min_self]
  · rw [exists_atom_iff hnet, List.getElem?_map, ha, Option.map_some, Option.some.injEq, eq_comm]
    exact (and_iff_right (hall a (List.mem_of_getElem? ha))).symm

end

/-! ## Bindings -/

theorem bind_of_align_ok {net endpoint : Expansion} {b : Binding}
    (h : align net endpoint = .ok b) (span : Span) : bind net endpoint span = ⟨some b, []⟩ := by
  rw [bind, h]

theorem bind_of_align_error {net endpoint : Expansion} {problems : List Problem}
    (h : align net endpoint = .error problems) (span : Span) :
    bind net endpoint span = ⟨none, problems.map (·.at_ span)⟩ := by
  rw [bind, h]

theorem code_at (p : Problem) (span : Span) : (p.at_ span).code = p.code := rfl

/-- The alignment of grids fails when the axes are not found in order or do not fit, and what
it reports is one of the two or a value that is not the net's. -/
theorem align_eq_error_or_ok {net endpoint : Expansion} (hnet : net.IsGrid)
    (hep : endpoint.IsGrid) :
    (∃ problems, align net endpoint = .error problems ∧
      (¬ ∃ places, IsLeftmost net.axisNames endpoint.axisNames places ∧
        Fits net endpoint places) ∧
      ∀ p ∈ problems,
        p.code ∈ [Code.missingAxis, Code.axisLengthMismatch, Code.unmatchedCoordinate]) ∨
    ∃ places, IsLeftmost net.axisNames endpoint.axisNames places ∧ Fits net endpoint places ∧
      align net endpoint =
        .ok ⟨.axis, endpoint.atoms.map fun a => target net (select places a.parts)⟩ := by
  rcases align_cases hnet hep with ⟨axis, he, h⟩ | ⟨places, hleft, hcases⟩
  · refine Or.inl ⟨_, h, ?_, by simp [Problem.code]⟩
    rintro ⟨places, hleft, _⟩
    rw [embed_eq_ok_iff.mpr hleft] at he
    cases he
  · rcases hcases with ⟨hlengths, h⟩ | ⟨hvalues, a, _, h⟩ | ⟨hfits, h⟩
    · refine Or.inl ⟨_, h, ?_, fun p hp => by simp [mem_lengthProblems hp]⟩
      rintro ⟨other, hother, hfits⟩
      exact hlengths (hleft.unique hother ▸ hfits.lengths)
    · refine Or.inl ⟨_, h, ?_, by simp [Problem.code]⟩
      rintro ⟨other, hother, hfits⟩
      exact hvalues (hleft.unique hother ▸ hfits.values)
    · exact Or.inr ⟨places, hleft, hfits, h⟩

/-- Two fully named expressions are bound exactly when the net's axes are found in order among
the endpoint's and the shared axes fit.  The binding is then the projection on the shared
axes.  The net itself is never at fault. -/
theorem bind_eq_projection {o₁ o₂ : Options} {raw₁ raw₂ : String} {net endpoint : Expansion}
    (hnet : (expand o₁ raw₁).value = some net) (hep : (expand o₂ raw₂).value = some endpoint)
    (hnamed : net.isFullyNamed = true) (hnamed' : endpoint.isFullyNamed = true) (span : Span) :
    ((∃ b, (bind net endpoint span).value = some b) ↔
      ∃ places, IsLeftmost net.axisNames endpoint.axisNames places ∧ Fits net endpoint places) ∧
    (∀ b places, (bind net endpoint span).value = some b →
      IsLeftmost net.axisNames endpoint.axisNames places →
        IsProjection net endpoint places b) ∧
    ∀ d ∈ (bind net endpoint span).log,
      d.code ≠ .valueOffAxis ∧ d.code ≠ .duplicateCoordinate := by
  have hgrid := isGrid_of_expand hnet hnamed
  have hgrid' := isGrid_of_expand hep hnamed'
  rcases align_eq_error_or_ok hgrid hgrid' with
    ⟨problems, h, hno, hcodes⟩ | ⟨places, hleft, hfits, h⟩
  · rw [bind_of_align_error h]
    refine ⟨iff_of_false (by simp) hno, by simp, fun d hd => ?_⟩
    obtain ⟨p, hp, rfl⟩ := List.mem_map.mp hd
    rw [code_at]
    have hcode := hcodes p hp
    refine ⟨fun heq => ?_, fun heq => ?_⟩
    · exact absurd (heq ▸ hcode) (by decide)
    · exact absurd (heq ▸ hcode) (by decide)
  · rw [bind_of_align_ok h]
    refine ⟨iff_of_true ⟨_, rfl⟩ ⟨places, hleft, hfits⟩, fun b other hb hother => ?_, by simp⟩
    cases hb
    rw [← hleft.unique hother]
    exact isProjection_of_fits hgrid hgrid' hleft.toIsEmbedding hfits

/-- A net over bits from the high one down, and an endpoint over lanes and bits from the low one
up. -/
theorem bind_eq_projection_lanes : ∃ net endpoint,
    (expand { named := [("bit", "[1:0]")] } "n<@bit>").value = some net ∧
    (expand { named := [("lane", "<a,b>"), ("bit", "[0:1]")] } "p<@lane>_<@bit>").value =
      some endpoint ∧
    net.isFullyNamed = true ∧ endpoint.isFullyNamed = true ∧
    ∃ b, (bind net endpoint ⟨0, 0, 0⟩).value = some b ∧ IsProjection net endpoint [1] b := by
  have hnet : (expand { named := [("bit", "[1:0]")] } "n<@bit>").value = some
      ⟨"n<@bit>", false, false,
        [⟨"n1", "n", 0, [.number 1]⟩, ⟨"n0", "n", 0, [.number 0]⟩],
        [⟨some "bit", 2, [(.number 1, 0), (.number 0, 1)]⟩]⟩ :=
    expand_eq_some_iff.mpr ⟨⟨"n<@bit>", [⟨[.text "n",
      .group ⟨.range, [.number 1, .number 0], some "bit", 1, 7⟩], 0, 7⟩]⟩, _,
      by decide +kernel, by decide +kernel, by decide, rfl⟩
  have hep : (expand { named := [("lane", "<a,b>"), ("bit", "[0:1]")] } "p<@lane>_<@bit>").value =
      some ⟨"p<@lane>_<@bit>", false, false,
        [⟨"pa_0", "p", 0, [.literal "a", .number 0]⟩, ⟨"pa_1", "p", 0, [.literal "a", .number 1]⟩,
          ⟨"pb_0", "p", 0, [.literal "b", .number 0]⟩, ⟨"pb_1", "p", 0, [.literal "b", .number 1]⟩],
        [⟨some "lane", 2, [(.literal "a", 0), (.literal "b", 1)]⟩,
          ⟨some "bit", 2, [(.number 0, 0), (.number 1, 1)]⟩]⟩ :=
    expand_eq_some_iff.mpr ⟨⟨"p<@lane>_<@bit>", [⟨[.text "p",
      .group ⟨.enumeration, [.literal "a", .literal "b"], some "lane", 1, 8⟩, .text "_",
      .group ⟨.range, [.number 0, .number 1], some "bit", 9, 15⟩], 0, 15⟩]⟩, _,
      by decide +kernel, by decide +kernel, by decide, rfl⟩
  refine ⟨_, _, hnet, hep, rfl, rfl, ?_⟩
  obtain ⟨hsome, hprojects, _⟩ := bind_eq_projection hnet hep rfl rfl ⟨0, 0, 0⟩
  have hleft : IsLeftmost ["bit"] ["lane", "bit"] [1] := embed_eq_ok_iff.mp (by decide)
  obtain ⟨b, hb⟩ := hsome.mpr ⟨[1], hleft, .cons rfl .nil, .cons (by decide) .nil⟩
  exact ⟨b, hb, hprojects b [1] hb hleft⟩

end Netlist.Axis
