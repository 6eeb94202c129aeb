import Netlist.Proofs.Axis.Projection

/-!
# Broadcasts

Expressions that are read with the same named patterns have the same values on axes of
the same name.  The shared axes of a net and an endpoint always fit then, so only a
missing axis stands in the way of a binding.  The axes that only the endpoint has repeat
the net: every net atom is taken by as many endpoint atoms as these axes have tuples.
-/

namespace Netlist.Axis

open Pattern

/-- The values that a name stands for. -/
def namedValues (o : Options) (name : String) : List Part :=
  match o.lookup name with
  | .group d => d.items
  | _ => []

theorem valueColumns_of_expand {o : Options} {raw : String} {x : Expansion}
    (h : (expand o raw).value = some x) (hx : x.isFullyNamed = true) :
    valueColumns x = x.axisNames.map (namedValues o) := by
  rw [valueColumns, Expansion.axisNames, List.map_map]
  refine List.map_congr_left fun a ha => ?_
  obtain ⟨d, hd, hvalues⟩ := values_eq_of_expand h hx ha
  rw [hvalues, Function.comp_apply, namedValues, hd]

/-- The net's columns are the endpoint's at the places. -/
theorem valueColumns_eq_select {o₁ o₂ : Options} (hnamed : o₁.named = o₂.named)
    (hmax : o₁.maxAtoms = o₂.maxAtoms) {raw₁ raw₂ : String} {net endpoint : Expansion}
    (hnet : (expand o₁ raw₁).value = some net) (hep : (expand o₂ raw₂).value = some endpoint)
    (hn : net.isFullyNamed = true) (he : endpoint.isFullyNamed = true) {places : List Nat}
    (hplaces : IsEmbedding net.axisNames endpoint.axisNames places) :
    valueColumns net = select places (valueColumns endpoint) := by
  have hlimit : o₁.limit = o₂.limit := by rw [Options.limit, Options.limit, hmax]
  have hvalues : namedValues o₁ = namedValues o₂ := by
    funext name
    rw [namedValues, namedValues, Options.lookup_congr hnamed hlimit]
  rw [valueColumns_of_expand hnet hn, valueColumns_of_expand hep he, select_map,
    hplaces.select_eq, hvalues]

section

variable {net endpoint : Expansion} (hnet : net.IsGrid) (hep : endpoint.IsGrid)
  {places : List Nat} (hcols : valueColumns net = select places (valueColumns endpoint))

include hnet hep hcols

/-- Axes with the same values fit. -/
theorem fits_of_valueColumns_eq : Fits net endpoint places := by
  constructor
  · have hlengths : net.axes.map (·.length) = (select places endpoint.axes).map (·.length) := by
      rw [← select_map, lengths_eq hnet, lengths_eq hep, select_map, hcols]
    rw [SameLengths, ← List.forall₂_map_right_iff, ← List.forall₂_map_left_iff, hlengths]
    exact List.forall₂_same.mpr fun _ _ => rfl
  · rw [sharedValues_iff_columns, hcols]
    exact List.forall₂_same.mpr fun _ _ => List.Subset.refl _

/-- Every net atom is taken equally often. -/
theorem count_mul_length (hplaces : IsEmbedding net.axisNames endpoint.axisNames places)
    {j : Nat} (hj : j < net.length) :
    (endpoint.atoms.map fun a => target net (select places a.parts)).count j * net.length =
      endpoint.length := by
  have hlt : ∀ k ∈ places, k < (valueColumns endpoint).length := by
    simpa [valueColumns] using places_lt hplaces
  -- the atom `j` has some values `t`, and is taken by the endpoint atoms with these values
  obtain ⟨n, hn⟩ : ∃ n, net.atoms[j]? = some n := ⟨_, List.getElem?_eq_getElem hj⟩
  obtain ⟨ht, hjt⟩ := (exists_atom_iff hnet).mp ⟨n, hn, rfl⟩
  have hmem : ∀ u ∈ (tuples (valueColumns endpoint)).map (select places),
      List.Forall₂ (· ∈ ·) u (valueColumns net) := by
    intro u hu
    obtain ⟨v, hv, rfl⟩ := List.mem_map.mp hu
    rw [hcols]
    exact forall₂_select (mem_tuples.mp hv) places
  have hcount : (endpoint.atoms.map fun a => target net (select places a.parts)).count j =
      ((tuples (valueColumns endpoint)).map (select places)).count n.parts := by
    have hindex : (endpoint.atoms.map fun a => target net (select places a.parts)) =
        ((tuples (valueColumns endpoint)).map (select places)).map (target net) := by
      rw [valueColumns, ← hep.parts_eq, List.map_map, List.map_map]
      rfl
    rw [hindex, List.count, List.countP_map]
    refine List.countP_congr fun u hu => ?_
    have hiff : target net u = j ↔ u = n.parts := by
      constructor
      · intro heq
        obtain ⟨n', hn', rfl⟩ := (exists_atom_iff hnet).mpr ⟨hmem u hu, heq.symm⟩
        rw [hn] at hn'
        rw [Option.some.inj hn']
      · rintro rfl
        exact hjt.symm
    simpa using hiff
  have heven := count_select hplaces.ascending hlt (columns_nodup hep) (hcols ▸ ht)
  rw [← hcols, ← lengths_eq hnet, ← lengths_eq hep, ← hnet.length_eq, ← hep.length_eq] at heven
  rw [hcount, heven]

end

/-- Under one set of named patterns, expressions are bound exactly when the net's axes are some
of the endpoint's, in order.  Otherwise the first axis that has no place after those before it
is reported.  A binding takes every net atom equally often. -/
theorem bind_broadcasts_evenly {o₁ o₂ : Options} (hnamed : o₁.named = o₂.named)
    (hmax : o₁.maxAtoms = o₂.maxAtoms) {raw₁ raw₂ : String} {net endpoint : Expansion}
    (hnet : (expand o₁ raw₁).value = some net) (hep : (expand o₂ raw₂).value = some endpoint)
    (hn : net.isFullyNamed = true) (he : endpoint.isFullyNamed = true) (span : Span) :
    ((∃ b, (bind net endpoint span).value = some b) ↔
      net.axisNames.Sublist endpoint.axisNames) ∧
    ((bind net endpoint span).value = none → ∃ before axis after,
      net.axisNames = before ++ axis :: after ∧ before.Sublist endpoint.axisNames ∧
      ¬ (before ++ [axis]).Sublist endpoint.axisNames ∧
      (bind net endpoint span).log = [⟨.error, ⟨3001⟩, span, .text ("axis " ++ Text.quoted axis ++
        " of net " ++ Text.quoted net.raw ++ " is missing from endpoint " ++
        Text.quoted endpoint.raw ++ " (endpoint axes: " ++ ", ".intercalate endpoint.axisNames ++
        ")"), []⟩]) ∧
    ∀ b, (bind net endpoint span).value = some b →
      (bind net endpoint span).log = [] ∧ net.length ∣ endpoint.length ∧
        ∀ j < net.length, b.netIndex.count j = endpoint.length / net.length := by
  have hgrid := isGrid_of_expand hnet hn
  have hgrid' := isGrid_of_expand hep he
  rcases align_cases hgrid hgrid' with ⟨axis, hembed, h⟩ | ⟨places, hleft, hcases⟩
  · rw [bind_of_align_error h]
    obtain ⟨before, after, hnames, hsub, hnot⟩ := of_embed_eq_error hembed
    refine ⟨iff_of_false (by simp) fun hs => ?_, fun _ => ?_, by simp⟩
    · obtain ⟨places, hplaces⟩ := exists_embed_eq_ok_iff.mpr hs
      rw [hembed] at hplaces
      cases hplaces
    · exact ⟨before, axis, after, hnames, hsub, hnot, rfl⟩
  · have hplaces := hleft.toIsEmbedding
    have hcols := valueColumns_eq_select hnamed hmax hnet hep hn he hplaces
    have hfits := fits_of_valueColumns_eq hgrid hgrid' hcols
    rcases hcases with ⟨hlengths, _⟩ | ⟨hvalues, _⟩ | ⟨_, h⟩
    · exact absurd hfits.lengths hlengths
    · exact absurd hfits.values hvalues
    · rw [bind_of_align_ok h]
      refine ⟨iff_of_true ⟨_, rfl⟩ hplaces.sublist, by simp, fun b hb => ?_⟩
      cases hb
      have hcount := fun j (hj : j < net.length) =>
        count_mul_length hgrid hgrid' hcols hplaces hj
      have hpos : 0 < net.length := hgrid.length_pos
      refine ⟨rfl, ⟨_, (Nat.mul_comm _ _ ▸ hcount 0 hpos).symm⟩, fun j hj => ?_⟩
      exact Nat.eq_div_of_mul_eq_left hpos.ne' (hcount j hj)

/-- A net over two bits and an endpoint over three lanes of them.  The other way round, the
lanes have no place. -/
theorem bind_broadcasts_evenly_three_lanes : ∃ net endpoint,
    (expand { named := [("lane", "<a,b,c>"), ("bit", "[1:0]")] } "n<@bit>").value = some net ∧
    (expand { named := [("lane", "<a,b,c>"), ("bit", "[1:0]")] } "p<@lane>_<@bit>").value =
      some endpoint ∧
    net.isFullyNamed = true ∧ endpoint.isFullyNamed = true ∧
    (∃ b, (bind net endpoint ⟨0, 0, 0⟩).value = some b ∧ ∀ j < 2, b.netIndex.count j = 3) ∧
    (bind endpoint net ⟨0, 0, 0⟩).log = [⟨.error, ⟨3001⟩, ⟨0, 0, 0⟩,
      .text ("axis \"lane\" of net \"p<@lane>_<@bit>\" is missing from endpoint " ++
        "\"n<@bit>\" (endpoint axes: bit)"), []⟩] := by
  have hnet : (expand { named := [("lane", "<a,b,c>"), ("bit", "[1:0]")] } "n<@bit>").value = some
      ⟨"n<@bit>", false, false,
        [⟨"n1", "n", 0, [.number 1]⟩, ⟨"n0", "n", 0, [.number 0]⟩],
        [⟨some "bit", 2, [(.number 1, 0), (.number 0, 1)]⟩]⟩ :=
    expand_eq_some_iff.mpr ⟨⟨"n<@bit>", [⟨[.text "n",
      .group ⟨.range, [.number 1, .number 0], some "bit", 1, 7⟩], 0, 7⟩]⟩, _,
      by decide +kernel, by decide +kernel, by decide, rfl⟩
  have hep : (expand { named := [("lane", "<a,b,c>"), ("bit", "[1:0]")] }
      "p<@lane>_<@bit>").value = some ⟨"p<@lane>_<@bit>", false, false,
        [⟨"pa_1", "p", 0, [.literal "a", .number 1]⟩, ⟨"pa_0", "p", 0, [.literal "a", .number 0]⟩,
          ⟨"pb_1", "p", 0, [.literal "b", .number 1]⟩, ⟨"pb_0", "p", 0, [.literal "b", .number 0]⟩,
          ⟨"pc_1", "p", 0, [.literal "c", .number 1]⟩, ⟨"pc_0", "p", 0, [.literal "c", .number 0]⟩],
        [⟨some "lane", 3, [(.literal "a", 0), (.literal "b", 1), (.literal "c", 2)]⟩,
          ⟨some "bit", 2, [(.number 1, 0), (.number 0, 1)]⟩]⟩ :=
    expand_eq_some_iff.mpr ⟨⟨"p<@lane>_<@bit>", [⟨[.text "p",
      .group ⟨.enumeration, [.literal "a", .literal "b", .literal "c"], some "lane", 1, 8⟩,
      .text "_", .group ⟨.range, [.number 1, .number 0], some "bit", 9, 15⟩], 0, 15⟩]⟩, _,
      by decide +kernel, by decide +kernel, by decide, rfl⟩
  refine ⟨_, _, hnet, hep, rfl, rfl, ?_, ?_⟩
  · obtain ⟨hsome, _, heven⟩ := bind_broadcasts_evenly rfl rfl hnet hep rfl rfl ⟨0, 0, 0⟩
    obtain ⟨b, hb⟩ := hsome.mpr (by decide)
    exact ⟨b, hb, (heven b hb).2.2⟩
  · obtain ⟨hsome, hmissing, _⟩ := bind_broadcasts_evenly rfl rfl hep hnet rfl rfl ⟨0, 0, 0⟩
    obtain ⟨before, axis, after, hnames, hbefore, _, hlog⟩ := hmissing
      (Option.not_isSome_iff_eq_none.mp fun h =>
        absurd (hsome.mp (Option.isSome_iff_exists.mp h)) (by decide))
    rw [hlog]
    cases before with
    | nil =>
        obtain ⟨rfl, -⟩ := List.cons.inj hnames
        decide +kernel
    | cons first before =>
        obtain ⟨rfl, -⟩ := List.cons.inj hnames
        exact absurd (hbefore.subset (List.mem_cons_self ..)) (by decide)

end Netlist.Axis
