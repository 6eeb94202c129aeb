import Netlist.Proofs.Pattern.Groups
import Netlist.Proofs.Pattern.Tuples

/-!
# Expansions as grids

The atoms of a segment are the tuples of the values of its groups, each filled into the
text of the segment (`expandPieces_eq`).  No text occurs twice, so no tuple does, and
no group holds a value twice.  An expansion with axes is therefore a grid
(`Expansion.IsGrid`): its atoms are the tuples of the values of its axes, and
an axis knows the ordinal of each of its values.
-/

namespace Netlist.Pattern

/-! ## The atoms of a segment -/

/-- The text of some pieces with values put in for the groups. -/
def fill : List Piece → List Part → String
  | [], _ => ""
  | .text s :: rest, parts => s ++ fill rest parts
  | .group _ :: rest, p :: parts => p.text ++ fill rest parts
  | .group _ :: rest, [] => fill rest []

/-- The values of the groups among some pieces. -/
def columns (pieces : List Piece) : List (List Part) :=
  (pieces.filterMap Piece.group?).map (·.items)

@[simp] theorem columns_nil : columns [] = [] := rfl

@[simp] theorem columns_text (s : String) (rest : List Piece) :
    columns (.text s :: rest) = columns rest := rfl

@[simp] theorem columns_group (g : Group) (rest : List Piece) :
    columns (.group g :: rest) = g.items :: columns rest := rfl

/-- The drafts after some pieces: every draft goes on with every tuple. -/
theorem expandPieces_eq {budget : Nat} : ∀ {pieces : List Piece} {drafts out : List Draft},
    expandPieces budget drafts pieces = some out →
    out = drafts.flatMap fun d => (tuples (columns pieces)).map fun ps =>
      ⟨d.text ++ fill pieces ps, ps.reverse ++ d.parts⟩
  | [], drafts, out, h => by
      rw [expandPieces] at h
      split at h
      · cases h
      · cases h
        simp [tuples, fill]
  | .text s :: rest, drafts, out, h => by
      rw [expandPieces] at h
      rw [expandPieces_eq h, List.flatMap_map]
      simp [fill, Draft.addText, String.append_assoc]
  | .group g :: rest, drafts, out, h => by
      rw [expandPieces] at h
      split at h
      · cases h
      · rw [expandPieces_eq h, List.flatMap_assoc]
        simp [tuples, fill, Draft.addPart, String.append_assoc,
          List.flatMap_map, List.map_flatMap, Function.comp_def]

theorem length_le_of_expandPieces {budget : Nat} {drafts out : List Draft} {pieces : List Piece}
    (h : expandPieces budget drafts pieces = some out) : out.length ≤ budget := by
  fun_induction expandPieces budget drafts pieces with
  | case1 drafts hlt => cases h
  | case2 drafts hle =>
      cases h
      exact Nat.le_of_not_lt hle
  | case3 drafts s rest ih => exact ih h
  | case4 drafts g rest hrefused => cases h
  | case5 drafts g rest hgo ih => exact ih h

theorem expandSegment_eq {budget number : Nat} {s : Segment} {atoms : List Atom}
    (h : expandSegment budget number s = some atoms) :
    atoms = (tuples (s.groups.map (·.items))).map fun ps =>
      ⟨fill s.pieces ps, s.baseName, number, ps⟩ := by
  obtain ⟨drafts, hd, rfl⟩ := Option.map_eq_some_iff.mp h
  rw [expandPieces_eq hd]
  simp [columns, Segment.groups]

/-! ## Repeated atoms -/

/-- A text is repeated when what was seen before and what follows make it occur for the
second time. -/
theorem repeatedFrom_eq_nil_iff : ∀ (texts : List String) (seen : Std.TreeMap String Nat),
    repeatedFrom seen texts = [] ↔
      ∀ s, seen.getD s 0 < 2 → seen.getD s 0 + texts.count s < 2
  | [], seen => by simp [repeatedFrom]
  | t :: rest, seen => by
      have ih := repeatedFrom_eq_nil_iff rest (seen.insert t (seen.getD t 0 + 1))
      have hseen : ∀ s, (seen.insert t (seen.getD t 0 + 1)).getD s 0 =
          if t = s then seen.getD t 0 + 1 else seen.getD s 0 := by
        intro s
        rw [Std.TreeMap.getD_insert]
        simp
      have hcount :
          ∀ s, (t :: rest).count s = if t = s then rest.count s + 1 else rest.count s := by
        intro s
        rw [List.count_cons]
        by_cases hts : t = s <;> simp [hts]
      rw [repeatedFrom]
      by_cases h2 : seen.getD t 0 + 1 = 2
      · simp only [h2, beq_self_eq_true, if_true, reduceCtorEq, false_iff, not_forall]
        refine ⟨t, by omega, ?_⟩
        rw [hcount, if_pos rfl]
        omega
      · simp only [beq_iff_eq, h2, if_false, ih]
        refine forall_congr' fun s => ?_
        rw [hseen, hcount]
        by_cases hts : t = s
        · subst hts
          rw [if_pos rfl, if_pos rfl]
          omega
        · rw [if_neg hts, if_neg hts]

theorem repeated_eq_nil_iff (texts : List String) : repeated texts = [] ↔ texts.Nodup := by
  rw [repeated, repeatedFrom_eq_nil_iff, List.nodup_iff_count_le_one]
  refine forall_congr' fun s => ?_
  rw [Std.TreeMap.getD_emptyc]
  omega

/-! ## Axes -/

/-- The values of an axis, in order. -/
def Axis.values (a : Axis) : List Part := a.index.map (·.1)

/-- An axis whose values are different and stand where its index says. -/
structure Axis.Regular (a : Axis) : Prop where
  /-- The index numbers the values. -/
  index_eq : a.index = a.values.zipIdx
  /-- The length is the number of values. -/
  length_eq : a.length = a.values.length
  /-- There is a value. -/
  values_ne_nil : a.values ≠ []
  /-- No value stands twice. -/
  nodup : a.values.Nodup

theorem lookup_zipIdx (p : Part) : ∀ (values : List Part) (n : Nat),
    (values.zipIdx n).lookup p = if p ∈ values then some (n + values.idxOf p) else none
  | [], n => by simp
  | v :: values, n => by
      rw [List.zipIdx_cons, List.lookup_cons, lookup_zipIdx p values (n + 1)]
      by_cases hv : p = v
      · subst hv
        simp
      · have hne : (p == v) = false := by simpa using hv
        simp only [hne, List.mem_cons, hv, false_or, List.idxOf_cons_ne _ (Ne.symm hv)]
        split
        · congr 1
          omega
        · rfl

/-- The ordinal of a value is its place among the values. -/
theorem Axis.Regular.ordinal?_eq {a : Axis} (h : a.Regular) (p : Part) :
    a.ordinal? p = if p ∈ a.values then some (a.values.idxOf p) else none := by
  rw [Axis.ordinal?, h.index_eq, lookup_zipIdx, Nat.zero_add]

theorem values_axisOf (g : Group) : (axisOf g).values = g.items := by
  rw [Axis.values, axisOf, List.zipIdx_map_fst]

theorem axisOf_regular {g : Group} (hne : g.items ≠ []) (hnd : g.items.Nodup) :
    (axisOf g).Regular := by
  refine ⟨?_, ?_, ?_, ?_⟩ <;> rw [values_axisOf]
  · rfl
  · rfl
  · exact hne
  · exact hnd

/-! ## Grids -/

/-- An expansion whose atoms are the tuples of the values of its axes. -/
structure Expansion.IsGrid (x : Expansion) : Prop where
  regular : ∀ a ∈ x.axes, a.Regular
  parts_eq : x.atoms.map (·.parts) = tuples (x.axes.map Axis.values)
  /-- No tuple occurs twice. -/
  nodup : (tuples (x.axes.map Axis.values)).Nodup

variable {x : Expansion} {raw : String} {o : Options}

theorem Expansion.IsGrid.length_eq (h : x.IsGrid) :
    x.length = (x.axes.map (·.length)).prod := by
  have hlen := congrArg List.length h.parts_eq
  rw [List.length_map, length_tuples, List.map_map] at hlen
  rw [Expansion.length, hlen]
  congr 1
  refine List.map_congr_left fun a ha => ?_
  exact (h.regular a ha).length_eq.symm

theorem Expansion.IsGrid.length_pos (h : x.IsGrid) : 0 < x.length := by
  have hne : tuples (x.axes.map Axis.values) ≠ [] := by
    refine tuples_ne_nil fun c hc => ?_
    obtain ⟨a, ha, rfl⟩ := List.mem_map.mp hc
    exact (h.regular a ha).values_ne_nil
  rw [Expansion.length, ← List.length_map (·.parts), h.parts_eq]
  exact List.length_pos_iff.mpr hne

/-- An expression stands for something when it can be read, its atoms are within the limit and
no text occurs twice among them. -/
theorem expand_eq_some_iff :
    (expand o raw).value = some x ↔ ∃ e atoms, (read o raw).1 = some e ∧
      expandSegments o.limit 0 e.segments = some atoms ∧ (atoms.map (·.literal)).Nodup ∧
      x = ⟨e.raw, e.isSpliced, e.isLiteral, atoms,
        match e.segments with
        | [s] => s.groups.map axisOf
        | _ => []⟩ := by
  have hparse : (parse o raw).value = (read o raw).1 := rfl
  rw [expand, Logged.value_bind, hparse]
  cases hread : (read o raw).1 with
  | none => simp
  | some e =>
      simp only [expandParsed]
      cases ha : expandSegments o.limit 0 e.segments with
      | none => simp [ha]
      | some atoms =>
          cases hr : repeated (atoms.map (·.literal)) with
          | cons t ts =>
              have hnot : ¬ (atoms.map (·.literal)).Nodup := by
                rw [← repeated_eq_nil_iff, hr]
                simp
              simp [ha, hr, hnot]
          | nil =>
              have hnd := (repeated_eq_nil_iff _).mp hr
              simp only [hr]
              constructor
              · intro h
                exact ⟨e, atoms, rfl, ha, hnd, (Option.some.inj h).symm⟩
              · rintro ⟨e', atoms', he, ha', _, rfl⟩
                cases he
                cases ha.symm.trans ha'
                rfl

/-- An expression of one segment: its groups, and what it stands for. -/
theorem exists_segment_of_expand (h : (expand o raw).value = some x) (hx : x.isFullyNamed = true) :
    ∃ s : Segment, (∀ g ∈ s.groups, g.Meant o.lookup) ∧ x.axes = s.groups.map axisOf ∧
      (x.atoms = (tuples (s.groups.map (·.items))).map fun ps =>
        ⟨fill s.pieces ps, s.baseName, 0, ps⟩) ∧ x.literals.Nodup := by
  obtain ⟨e, atoms, hread, ha, hnd, rfl⟩ := expand_eq_some_iff.mp h
  have hmeant := meant_of_read hread
  -- an expansion with an axis comes from one segment
  cases hs : e.segments with
  | nil => simp [Expansion.isFullyNamed, hs] at hx
  | cons s rest =>
      cases rest with
      | cons s' rest => simp [Expansion.isFullyNamed, hs] at hx
      | nil =>
          rw [hs, expandSegments] at ha
          obtain ⟨own, hown, heq⟩ := Option.bind_eq_some_iff.mp ha
          have hatoms : atoms = own := by
            simpa [expandSegments] using heq.symm
          refine ⟨s, hmeant s (by simp [hs]), rfl, ?_, hnd⟩
          simp only [hatoms]
          exact expandSegment_eq hown

/-- What a fully named expression stands for is a grid. -/
theorem isGrid_of_expand
    (h : (expand o raw).value = some x) (hx : x.isFullyNamed = true) : x.IsGrid := by
  obtain ⟨s, hmeant, haxes, hatoms, hnd⟩ := exists_segment_of_expand h hx
  have hvalues : x.axes.map Axis.values = s.groups.map (·.items) := by
    rw [haxes, List.map_map]
    exact List.map_congr_left fun g _ => values_axisOf g
  have htuples : (tuples (s.groups.map (·.items))).Nodup := by
    rw [Expansion.literals, hatoms, List.map_map] at hnd
    exact hnd.of_map
  have hne : ∀ values ∈ s.groups.map (·.items), values ≠ [] := by
    intro values hv
    obtain ⟨g, hg, rfl⟩ := List.mem_map.mp hv
    exact (hmeant g hg).items_ne_nil
  refine ⟨fun a ha => ?_, ?_, by rwa [hvalues]⟩
  · rw [haxes] at ha
    obtain ⟨g, hg, rfl⟩ := List.mem_map.mp ha
    have hitems : g.items ∈ s.groups.map (·.items) := List.mem_map_of_mem hg
    exact axisOf_regular (hne _ hitems) (nodup_of_nodup_tuples hne htuples _ hitems)
  · rw [hvalues, hatoms, List.map_map]
    exact List.map_id _

/-- The values of an axis are those of its named pattern. -/
theorem values_eq_of_expand
    (h : (expand o raw).value = some x) (hx : x.isFullyNamed = true) {a : Axis} (ha : a ∈ x.axes) :
    ∃ d, o.lookup a.name = .group d ∧ a.values = d.items := by
  obtain ⟨s, hmeant, haxes, _⟩ := exists_segment_of_expand h hx
  have hid : a.id.isSome = true := by
    simp only [Expansion.isFullyNamed, Bool.and_eq_true, List.all_eq_true] at hx
    exact hx.2 a ha
  obtain ⟨name, hname⟩ := Option.isSome_iff_exists.mp hid
  rw [haxes] at ha
  obtain ⟨g, hg, rfl⟩ := List.mem_map.mp ha
  obtain ⟨d, hd, hitems⟩ := (hmeant g hg).named name hname
  refine ⟨d, ?_, by rw [values_axisOf, hitems]⟩
  rwa [Axis.name, hname]

end Netlist.Pattern
