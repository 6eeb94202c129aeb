import Netlist.Proofs.Pattern.Writable

/-!
# Names are literal patterns

No special character gets into an atom, and a text without special characters is read as one
piece of text that stands for itself (`expand_of_plain`).  So an expansion can be expanded again,
name by name, unless a name is blank: an expression must not be blank, but one of its segments
may be.  No value of a group is blank, so a blank name is the whole of such a segment
(`exists_segment_of_blank`).
-/

namespace Netlist.Pattern

/-! ## Texts without special characters -/

theorem Options.limit_pos (o : Options) : 0 < o.limit := by
  rw [limit, defaultMaxAtoms]
  split <;> omega

theorem lexemes_of_plain {t : String} (hplain : Plain t.toList) (hne : t.toList ≠ []) :
    lexemes t = [.text 0 t.toList] := by
  have hscan := scan_plain hplain 0 0 [] []
  rw [List.append_nil] at hscan
  rw [lexemes, hscan, Lexeme.scan, Lexeme.ofText]
  simp [hne]

section

variable {t : String} (hplain : Plain t.toList) (hblank : Text.isBlankText t = false) (o : Options)

include hplain hblank

theorem read_of_plain : read o t = (some ⟨t, [⟨[.text t], 0, t.utf8ByteSize⟩]⟩, []) := by
  have hne : t.toList ≠ [] := by
    intro hnil
    rw [Text.isBlankText, hnil] at hblank
    cases hblank
  rw [read, readWith, hblank, if_neg Bool.false_ne_true, lexemes_of_plain hplain hne,
    Reading.run_text, Reading.run_nil]
  simp [Reading.finish, Reading.addPiece]

/-- A text without special characters that is not blank stands for itself, and nothing is
reported. -/
theorem expand_of_plain :
    expand o t = ⟨some ⟨t, false, true, [⟨t, t, 0, []⟩], []⟩, []⟩ := by
  have hparse : parse o t = ⟨some ⟨t, [⟨[.text t], 0, t.utf8ByteSize⟩]⟩, []⟩ := by
    rw [parse, read_of_plain hplain hblank]
    rfl
  have hproduct : Expression.product ⟨t, [⟨[.text t], 0, t.utf8ByteSize⟩]⟩ = [⟨t, t, 0, []⟩] := by
    rw [Expression.product, productFrom_cons, productFrom_nil, Segment.atoms_eq]
    show [(⟨t ++ "", t, 0, []⟩ : Atom)] ++ [] = _
    rw [String.append_empty, List.append_nil]
  have hexpand := expandParsed_distinct (e := ⟨t, [⟨[.text t], 0, t.utf8ByteSize⟩]⟩) (o := o)
    (by simp [Segment.groups, Piece.group?]) (o.limit_pos)
    (by rw [hproduct]; exact List.nodup_singleton t)
  rw [hproduct] at hexpand
  rw [expand, hparse]
  exact hexpand

end

theorem value_expand_of_blank {t : String} (hblank : Text.isBlankText t = true) (o : Options) :
    (expand o t).value = none := by
  have hparse : (parse o t).value = none := by
    show (readWith o.lookup o.limit o.noSplice t).1 = none
    rw [readWith, if_pos hblank]
  rw [expand, Logged.value_bind, hparse]
  rfl

/-- Among the texts without special characters exactly the blank ones do not stand for
themselves. -/
theorem expand_literal_iff {t : String} (hplain : Plain t.toList) (o : Options) :
    (∃ x a, expand o t = ⟨some x, []⟩ ∧ x.atoms = [a] ∧ a.literal = t ∧ a.parts = []) ↔
      Text.isBlankText t = false := by
  constructor
  · rintro ⟨x, a, hexpand, -⟩
    by_contra hblank
    have hnone := value_expand_of_blank (by simpa using hblank) o
    rw [hexpand] at hnone
    cases hnone
  · intro hblank
    exact ⟨_, _, expand_of_plain hplain hblank o, rfl, rfl, rfl⟩

/-! ## Blank names -/

theorem SegmentsTile.pieces {limit : Nat} {names : String → GroupKind → List Part → Prop}
    {raw : String} {pos : Nat} {segments : List Segment}
    (h : SegmentsTile limit names raw pos segments) :
    ∀ s ∈ segments, PiecesTile limit names raw s.start s.stop s.pieces := by
  induction h with
  | last _ hpieces _ => simpa using hpieces
  | cons _ hpieces _ _ ih => exact List.forall_mem_cons.mpr ⟨hpieces, ih⟩

/-- A blank name is the text of a whole segment, between separators. -/
theorem exists_segment_of_blank {o : Options} {raw : String} {x : Expansion} {a : Atom}
    (h : (expand o raw).value = some x) (ha : a ∈ x.atoms)
    (hblank : Text.isBlankText a.literal = true) :
    ∃ e ∈ (parse o raw).value, e.isSpliced = true ∧ ∃ s, e.segments[a.segment]? = some s ∧
      s.groups = [] ∧ byteSlice raw s.start s.stop = Bytes.ofString a.literal := by
  obtain ⟨e, hread, -, hatoms, -⟩ := exists_read_of_expand h
  rw [hatoms] at ha
  obtain ⟨s, hs, hparts, hfill⟩ := exists_segment_of_mem_productFrom ha
  have hmem : s ∈ e.segments := List.fst_mem_of_mem_zipIdx hs
  have hpieces := (writable_of_read hread s hmem).2
  have hall : ¬ ∃ c ∈ a.literal.toList, Text.isBlank c = false := by
    simpa [Text.isBlankText] using hblank
  refine ⟨e, hread, ?_, s, List.mk_mem_zipIdx_iff_getElem?.mp hs, ?_⟩
  · -- a single segment is the whole expression, which is not blank
    by_contra hone
    have hsingle : e.segments = [s] := by
      have hlength : e.segments.length ≤ 1 := by simpa [Expression.isSpliced] using hone
      have hpos := List.length_pos_of_mem hmem
      obtain ⟨s', hs'⟩ := List.length_eq_one_iff.mp (by omega : e.segments.length = 1)
      rw [hs', List.mem_singleton] at hmem
      rw [hs', hmem]
    exact hall (not_blank_of_singleton hread hsingle hpieces hparts hfill)
  · have hnil : a.parts = [] := by
      by_contra hne
      exact hall (hfill ▸ exists_not_blank_fill hpieces hparts hne)
    rw [hnil, List.forall₂_nil_left_iff] at hparts
    rw [hnil] at hfill
    obtain ⟨-, htile⟩ := segmentsTile_of_readWith (explains_lookup o) hread
    refine ⟨List.map_eq_nil_iff.mp hparts, ?_⟩
    rw [hfill, ofString_fill hparts, (htile.pieces s hmem).flatMap_bytes]

/-! ## Names of an expansion -/

/-- Every name that an expression stands for is a text without special characters.  Unless it is
blank, it stands for itself alone, with any options; and it is blank only as a segment of
blanks between separators. -/
theorem names_stand_for_themselves {o : Options} {raw : String} {x : Expansion} {a : Atom}
    (h : (expand o raw).value = some x) (ha : a ∈ x.atoms) :
    a.literal ≠ "" ∧ (∀ c ∈ [';', '<', '>', '[', ']'], c ∉ a.literal.toList) ∧
    (∀ o', (∃ y b, expand o' a.literal = ⟨some y, []⟩ ∧ y.atoms = [b] ∧ b.literal = a.literal ∧
      b.parts = []) ↔ Text.isBlankText a.literal = false) ∧
    (Text.isBlankText a.literal = true →
      ∃ e ∈ (parse o raw).value, e.isSpliced = true ∧ ∃ s, e.segments[a.segment]? = some s ∧
        s.groups = [] ∧ byteSlice raw s.start s.stop = Bytes.ofString a.literal) := by
  have hwritable := atomsWritable_of_expand h
  have hplain := hwritable.plain a ha
  refine ⟨?_, ?_, expand_literal_iff hplain, exists_segment_of_blank h ha⟩
  · intro hempty
    exact hwritable.literal_ne_nil a ha (by rw [hempty]; rfl)
  · intro c hc hmem
    have hnot := isSpecial_eq_false_iff.mp (hplain c hmem)
    simp [hnot] at hc

/-- The blank name in the middle is the one that cannot be read again. -/
theorem names_stand_for_themselves_blank :
    ∃ x, (expand { named := [("bit", "<0,1>")] } "a; ;b<@bit>").value = some x ∧
      x.literals = ["a", " ", "b0", "b1"] ∧
      ∀ a ∈ x.atoms, (∃ y b, expand {} a.literal = ⟨some y, []⟩ ∧ y.atoms = [b] ∧
        b.literal = a.literal ∧ b.parts = []) ↔ a.literal ≠ " " := by
  have hliterals : (expand { named := [("bit", "<0,1>")] } "a; ;b<@bit>").value.map (·.literals) =
      some ["a", " ", "b0", "b1"] := by decide +kernel
  obtain ⟨x, hx, hnames⟩ := Option.map_eq_some_iff.mp hliterals
  refine ⟨x, hx, hnames, fun a ha => ?_⟩
  have hblank : ∀ n ∈ ["a", " ", "b0", "b1"], (Text.isBlankText n = false ↔ n ≠ " ") := by
    decide +kernel
  obtain ⟨-, -, hself, -⟩ := names_stand_for_themselves hx ha
  exact (hself {}).trans (hblank a.literal (hnames ▸ List.mem_map_of_mem ha))

end Netlist.Pattern
