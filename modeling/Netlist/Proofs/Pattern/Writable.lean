import Netlist.Proofs.Pattern.Grammar
import Netlist.Proofs.Pattern.Product
import Netlist.Proofs.Related

/-!
# What the atoms of an expansion can hold

An expression is cut at its special characters, so none of them gets into an atom.  A value
of a group can be written in a group again (`Part.Writable`), and the atoms of an expansion
are not empty, different, and within the limit.  A single one is not blank, since the
expression was not.  `AtomsWritable` collects these facts (`atomsWritable_of_expand`).
-/

namespace Netlist

/-! ## Values of groups -/

namespace Decimal

theorem isNumeral_ofInt (n : Nat) : IsNumeral (ofInt n).toList n := by
  have hdigits : (ofInt n).toList = Nat.toDigits 10 n := Nat.toList_repr
  rw [hdigits]
  exact readNat?_eq_some_iff.mp (readNat?_toDigits n)

/-- What holds of the ten digits holds of every digit. -/
theorem forall_isDigit {P : Char → Prop} (h : ∀ n < 10, P (Char.ofNat (48 + n))) {c : Char}
    (hc : isDigit c = true) : P c := by
  rw [isDigit, Bool.and_eq_true, decide_eq_true_iff, decide_eq_true_iff, Char.le_def,
    Char.le_def] at hc
  have hlow : 48 ≤ c.toNat := hc.1
  have hhigh : c.toNat ≤ 57 := hc.2
  have hdigit := h (c.toNat - 48) (by omega)
  rwa [Nat.add_sub_cancel' hlow, Char.ofNat_toNat] at hdigit

end Decimal

open Pattern (Plain)

/-- A value that stands between commas as it is: no character of it has a meaning in a group,
and a number is not negative and has 64 bits. -/
structure Part.Writable (p : Part) : Prop where
  ne_nil : p.text.toList ≠ []
  plain : Plain p.text.toList
  no_comma : ',' ∉ p.text.toList
  trimmed : Text.trimChars p.text.toList = p.text.toList
  value_nonneg : 0 ≤ p.value
  value_lt : p.value < 2 ^ 63

theorem Part.Writable.exists_not_blank {p : Part} (h : p.Writable) :
    ∃ c ∈ p.text.toList, Text.isBlank c = false := by
  by_contra hblank
  refine h.ne_nil ?_
  rw [← h.trimmed, Text.trimChars_eq_nil_iff]
  simpa using hblank

theorem Part.writable_number {n : Nat} (h : n < 2 ^ 63) : (Part.number n).Writable := by
  have hnumeral := Decimal.isNumeral_ofInt n
  have hdigit : ∀ c ∈ (Decimal.ofInt n).toList,
      Pattern.isSpecial c = false ∧ c ≠ ',' ∧ Text.isBlank c = false :=
    fun c hc => Decimal.forall_isDigit
      (P := fun c => Pattern.isSpecial c = false ∧ c ≠ ',' ∧ Text.isBlank c = false) (by decide)
      (hnumeral.digits c hc)
  refine ⟨hnumeral.ne_nil, fun c hc => (hdigit c hc).1, fun hc => (hdigit _ hc).2.1 rfl,
    Text.trimChars_eq_self fun c hc => (hdigit c hc).2.2, ?_, ?_⟩
  · exact Int.natCast_nonneg n
  · show (n : Int) < 2 ^ 63
    omega

namespace Pattern

theorem writable_of_mem_splitOn {content item : List Char} (hplain : Plain content)
    (hitem : item ∈ content.splitOn ',') (hblank : ∃ c ∈ item, Text.isBlank c = false) :
    (Part.literal (String.ofList (Text.trimChars item))).Writable := by
  have hsub : Text.trimChars item ⊆ item := Text.trimChars_subset item
  have htext : (Part.literal (String.ofList (Text.trimChars item))).text.toList =
      Text.trimChars item := String.toList_ofList
  refine ⟨?_, ?_, ?_, ?_, Int.le_refl 0, (by decide : (0 : Int) < 2 ^ 63)⟩ <;> rw [htext]
  · intro hnil
    obtain ⟨c, hc, hnot⟩ := hblank
    rw [Text.trimChars_eq_nil_iff.mp hnil c hc] at hnot
    cases hnot
  · exact fun c hc => hplain c (Text.subset_of_mem_splitOn hitem (hsub hc))
  · exact fun hc => Text.not_mem_of_mem_splitOn hitem (hsub hc)
  · exact Text.trimChars_trimChars item

theorem PlainGroup.writable {limit : Nat} {cs : List Char} {kind : GroupKind} {items : List Part}
    (h : PlainGroup limit cs kind items) : ∀ p ∈ items, p.Writable := by
  intro p hp
  cases h with
  | enumeration hplain _ hitems =>
      obtain ⟨item, hitem, rfl⟩ := List.mem_map.mp hp
      exact writable_of_mem_splitOn hplain hitem (hitems item hitem)
  | range hfirst hsecond _ =>
      have hm := lt_of_readInt64? (Decimal.readInt64?_eq_some_iff.mpr hfirst)
      have hn := lt_of_readInt64? (Decimal.readInt64?_eq_some_iff.mpr hsecond)
      obtain ⟨n, rfl, hle⟩ := exists_of_mem_rangeItems hp
      exact Part.writable_number (by omega)

variable {pieces : List Piece} {parts : List Part} {segments : List Segment} {raw : String}
  {o : Options}

/-- A reference has the values of a group that is written out elsewhere. -/
theorem GroupText.writable {cs : List Char} {kind : GroupKind} {items : List Part}
    {axis : Option String} (h : GroupText o.limit o.Means cs kind items axis) :
    ∀ p ∈ items, p.Writable := by
  cases h with
  | plain h => exact h.writable
  | named _ h =>
      obtain ⟨_, _, hgroup⟩ := h
      exact hgroup.writable

/-! ## Pieces of an expression that was read -/

/-- Text without special characters, or a group of writable values. -/
def Piece.Writable : Piece → Prop
  | .text t => t.toList ≠ [] ∧ Plain t.toList
  | .group g => g.items ≠ [] ∧ ∀ p ∈ g.items, p.Writable

/-- What holds of every text and of every group that can be read holds of the pieces. -/
theorem Assembled.forall_pieces {P : Piece → Prop}
    {group : Nat → Delimiter → List Char → Option Group}
    (htext : ∀ run : List Char, run ≠ [] → Plain run → P (.text (String.ofList run)))
    (hgroup : ∀ pos d content g, Plain content → group pos d content = some g → P (.group g))
    {stop start : Nat} {ls : List Lexeme} (h : Assembled group stop start pieces ls segments) :
    ∀ {pos : Nat} {cs : List Char}, Lexed pos cs ls → (∀ p ∈ pieces, P p) →
      ∀ s ∈ segments, s.pieces ≠ [] ∧ ∀ p ∈ s.pieces, P p := by
  induction h with
  | @finish start pieces hne =>
      intro pos cs _ hpieces s hs
      rw [List.mem_singleton] at hs
      subst hs
      exact ⟨by simpa using hne, fun p hp => hpieces p (List.mem_reverse.mp hp)⟩
  | text _ ih =>
      intro pos cs hlexed hpieces
      cases hlexed with
      | text hne hplain hrest =>
          exact ih hrest (List.forall_mem_cons.mpr ⟨htext _ hne hplain, hpieces⟩)
  | group hg _ ih =>
      intro pos cs hlexed hpieces
      cases hlexed with
      | group hplain hrest =>
          exact ih hrest (List.forall_mem_cons.mpr ⟨hgroup _ _ _ _ hplain hg, hpieces⟩)
  | separator hne _ ih =>
      intro pos cs hlexed hpieces
      cases hlexed with
      | separator hrest =>
          refine List.forall_mem_cons.mpr ⟨⟨by simpa using hne, fun p hp => ?_⟩, ih hrest (by simp)⟩
          exact hpieces p (List.mem_reverse.mp hp)

theorem writable_of_read {e : Expression} (h : (read o raw).1 = some e) :
    ∀ s ∈ e.segments, s.pieces ≠ [] ∧ ∀ p ∈ s.pieces, p.Writable := by
  obtain ⟨-, -, -, hassembled⟩ := readWith_eq_some_iff.mp h
  refine hassembled.forall_pieces (fun run hne hplain => ?_) (fun pos d content g hplain hg => ?_)
    (lexed_lexemes hassembled.isProper) (by simp)
  · rw [Piece.Writable, String.toList_ofList]
    exact ⟨hne, hplain⟩
  · have hproper := meant_of_readGroup (fun _ _ hd => Options.proper_of_lookup hd) hg
    exact ⟨hproper.items_ne_nil, (readGroup_sound (explains_lookup o) hplain hg).1.writable⟩

/-! ## Texts of atoms -/

theorem writable_of_mem_tuple
    (hpieces : ∀ p ∈ pieces, p.Writable) (h : List.Forall₂ (· ∈ ·) parts (columns pieces)) :
    ∀ p ∈ parts, p.Writable := by
  intro p hp
  obtain ⟨column, hcolumn, hmem⟩ := forall₂_exists_of_mem h hp
  obtain ⟨g, hg, rfl⟩ := List.mem_map.mp hcolumn
  obtain ⟨piece, hpiece, hsome⟩ := List.mem_filterMap.mp hg
  cases piece with
  | text t => cases hsome
  | group g' =>
      cases hsome
      exact (hpieces _ hpiece).2 p hmem

theorem plain_fill (hpieces : ∀ p ∈ pieces, p.Writable)
    (hparts : ∀ p ∈ parts, p.Writable) : Plain (fill pieces parts).toList := by
  fun_induction fill pieces parts with
  | case1 => exact plain_nil
  | case2 parts s rest ih =>
      obtain ⟨hs, hrest⟩ := List.forall_mem_cons.mp hpieces
      rw [String.toList_append]
      exact hs.2.append (ih hrest hparts)
  | case3 g rest p parts ih =>
      obtain ⟨hp, hmore⟩ := List.forall_mem_cons.mp hparts
      rw [String.toList_append]
      exact hp.plain.append (ih (List.forall_mem_cons.mp hpieces).2 hmore)
  | case4 g rest ih => exact ih (List.forall_mem_cons.mp hpieces).2 hparts

/-- The values put in stand in the text. -/
theorem subset_fill (h : List.Forall₂ (· ∈ ·) parts (columns pieces)) :
    ∀ p ∈ parts, p.text.toList ⊆ (fill pieces parts).toList := by
  fun_induction fill pieces parts with
  | case1 => cases h; simp
  | case2 parts s rest ih =>
      intro p hp
      rw [String.toList_append]
      exact List.subset_append_of_subset_right _ (ih h p hp)
  | case3 g rest p parts ih =>
      rw [columns_group] at h
      cases h with
      | cons _ hrest =>
          intro q hq
          rw [String.toList_append]
          rcases List.mem_cons.mp hq with rfl | hq
          · exact List.subset_append_left ..
          · exact List.subset_append_of_subset_right _ (ih hrest q hq)
  | case4 g rest ih => cases h

theorem fill_ne_nil (hne : pieces ≠ [])
    (hpieces : ∀ p ∈ pieces, p.Writable) (h : List.Forall₂ (· ∈ ·) parts (columns pieces)) :
    (fill pieces parts).toList ≠ [] := by
  have hparts := writable_of_mem_tuple hpieces h
  cases pieces with
  | nil => exact absurd rfl hne
  | cons piece rest =>
      cases piece with
      | text t =>
          have ht := hpieces (.text t) (List.mem_cons_self ..)
          rw [fill, String.toList_append]
          exact List.append_ne_nil_of_left_ne_nil ht.1 _
      | group g =>
          rw [columns_group] at h
          cases h with
          | @cons p _ parts _ _ _ =>
              have hp := hparts p (List.mem_cons_self ..)
              rw [fill, String.toList_append]
              exact List.append_ne_nil_of_left_ne_nil hp.ne_nil _

theorem exists_not_blank_fill
    (hpieces : ∀ p ∈ pieces, p.Writable) (h : List.Forall₂ (· ∈ ·) parts (columns pieces))
    (hne : parts ≠ []) : ∃ c ∈ (fill pieces parts).toList, Text.isBlank c = false := by
  obtain ⟨p, hp⟩ := List.exists_mem_of_ne_nil parts hne
  obtain ⟨c, hc, hblank⟩ := (writable_of_mem_tuple hpieces h p hp).exists_not_blank
  exact ⟨c, subset_fill h p hp hc, hblank⟩

/-- Without groups the text of the pieces is their bytes. -/
theorem ofString_fill : ∀ {pieces : List Piece}, columns pieces = [] →
    Bytes.ofString (fill pieces []) = pieces.flatMap (Piece.bytes raw)
  | [], _ => by simp [fill, Bytes.ofString_eq]
  | .text t :: rest, h => by
      have hrest : columns rest = [] := h
      rw [List.flatMap_cons, ← ofString_fill hrest, fill, Piece.bytes]
      simp [Bytes.ofString_eq]
  | .group g :: rest, h => by cases h

/-! ## Atoms of an expansion -/

/-- Atoms that an expression within a limit can stand for. -/
structure AtomsWritable (limit : Nat) (atoms : List Atom) : Prop where
  ne_nil : atoms ≠ []
  length_le : atoms.length ≤ limit
  nodup : (atoms.map (·.literal)).Nodup
  literal_ne_nil : ∀ a ∈ atoms, a.literal.toList ≠ []
  plain : ∀ a ∈ atoms, Plain a.literal.toList
  parts : ∀ a ∈ atoms, ∀ p ∈ a.parts, p.Writable
  not_blank : ∀ a, atoms = [a] → ∃ c ∈ a.literal.toList, Text.isBlank c = false

/-- An atom is a tuple of the values of its segment, filled into the text. -/
theorem exists_segment_of_mem_productFrom {number : Nat} {a : Atom}
    (h : a ∈ productFrom number segments) : ∃ s, (s, a.segment) ∈ segments.zipIdx number ∧
      List.Forall₂ (· ∈ ·) a.parts (columns s.pieces) ∧ a.literal = fill s.pieces a.parts := by
  obtain ⟨⟨s, n⟩, hs, ha⟩ := List.mem_flatMap.mp h
  rw [Segment.atoms_eq] at ha
  obtain ⟨parts, hparts, rfl⟩ := List.mem_map.mp ha
  exact ⟨s, hs, mem_tuples.mp hparts, rfl⟩

theorem exists_fill_of_mem_productFrom {number : Nat} {a : Atom}
    (h : a ∈ productFrom number segments) : ∃ s ∈ segments,
      List.Forall₂ (· ∈ ·) a.parts (columns s.pieces) ∧ a.literal = fill s.pieces a.parts := by
  obtain ⟨s, hs, hatom⟩ := exists_segment_of_mem_productFrom h
  exact ⟨s, List.fst_mem_of_mem_zipIdx hs, hatom⟩

theorem length_le_totalSize
    (h : ∀ s ∈ segments, ∀ g ∈ s.groups, g.items ≠ []) : segments.length ≤ totalSize segments := by
  have hpos : ∀ n ∈ segments.map Segment.size, 1 ≤ n := by
    intro n hn
    obtain ⟨s, hs, rfl⟩ := List.mem_map.mp hn
    show 0 < (s.groups.map (·.items.length)).prod
    refine List.prod_pos fun k hk => ?_
    obtain ⟨g, hg, rfl⟩ := List.mem_map.mp hk
    exact List.length_pos_iff.mpr (h s hs g hg)
  have hle := List.length_le_sum_of_one_le _ hpos
  rwa [List.length_map] at hle

/-- A single atom is not blank: it holds a value of a group, or it is the whole expression. -/
theorem not_blank_of_singleton {e : Expression} {s : Segment}
    {a : Atom} (hread : (read o raw).1 = some e) (hs : e.segments = [s])
    (hpieces : ∀ p ∈ s.pieces, p.Writable)
    (hparts : List.Forall₂ (· ∈ ·) a.parts (columns s.pieces))
    (hfill : a.literal = fill s.pieces a.parts) :
    ∃ c ∈ a.literal.toList, Text.isBlank c = false := by
  cases hcolumns : a.parts with
  | cons p parts =>
      rw [hfill]
      exact exists_not_blank_fill hpieces hparts (by simp [hcolumns])
  | nil =>
      -- without groups the pieces are texts, and they tile the expression
      obtain ⟨-, htile⟩ := segmentsTile_of_readWith (explains_lookup o) hread
      have hjoined := htile.joined
      rw [hcolumns, List.forall₂_nil_left_iff] at hparts
      rw [hs, List.map_singleton, List.intercalate_singleton, List.drop_zero,
        ← ofString_fill hparts, ← hcolumns, ← hfill] at hjoined
      have hblank := (readWith_eq_some_iff.mp hread).1
      rw [← Bytes.ofString_injective hjoined, Text.isBlankText, List.all_eq_false] at hblank
      simpa using hblank

/-- An expansion is the product of the expression that was read. -/
theorem exists_read_of_expand {x : Expansion}
    (h : (expand o raw).value = some x) : ∃ e, (read o raw).1 = some e ∧ e.size ≤ o.limit ∧
      x.atoms = e.product ∧ (x.atoms.map (·.literal)).Nodup := by
  obtain ⟨e, atoms, hread, hexpand, hnd, rfl⟩ := expand_eq_some_iff.mp h
  have hne : ∀ s ∈ e.segments, ∀ g ∈ s.groups, g.items ≠ [] := fun s hs g hg =>
    (meant_of_read hread s hs g hg).items_ne_nil
  rw [Expression.expandSegments_eq hne] at hexpand
  split at hexpand
  · next hle => exact ⟨e, hread, hle, (Option.some.inj hexpand).symm, hnd⟩
  · cases hexpand

theorem atomsWritable_of_expand {x : Expansion}
    (h : (expand o raw).value = some x) : AtomsWritable o.limit x.atoms := by
  obtain ⟨e, hread, hle, hatoms, hnd⟩ := exists_read_of_expand h
  have hpieces := writable_of_read hread
  have hlength := length_le_totalSize fun s hs g hg => (meant_of_read hread s hs g hg).items_ne_nil
  have hsegments : e.segments ≠ [] := (readWith_eq_some_iff.mp hread).2.2.2.segments_ne_nil
  have hcount : x.atoms.length = totalSize e.segments := by rw [hatoms]; exact length_productFrom ..
  have hfrom : ∀ a ∈ x.atoms, ∃ s ∈ e.segments,
      List.Forall₂ (· ∈ ·) a.parts (columns s.pieces) ∧ a.literal = fill s.pieces a.parts :=
    fun a ha => exists_fill_of_mem_productFrom (hatoms ▸ ha)
  refine ⟨?_, hcount ▸ hle, hnd, ?_, ?_, ?_, ?_⟩
  · have := List.length_pos_iff.mpr hsegments
    rw [← List.length_pos_iff]
    omega
  · intro a ha
    obtain ⟨s, hs, hparts, hfill⟩ := hfrom a ha
    rw [hfill]
    exact fill_ne_nil (hpieces s hs).1 (hpieces s hs).2 hparts
  · intro a ha
    obtain ⟨s, hs, hparts, hfill⟩ := hfrom a ha
    rw [hfill]
    exact plain_fill (hpieces s hs).2 (writable_of_mem_tuple (hpieces s hs).2 hparts)
  · intro a ha
    obtain ⟨s, hs, hparts, -⟩ := hfrom a ha
    exact writable_of_mem_tuple (hpieces s hs).2 hparts
  · intro a ha
    obtain ⟨s, hs, hparts, hfill⟩ := hfrom a (by simp [ha])
    have hone : x.atoms.length = 1 := by simp [ha]
    -- every segment has an atom, so there is one segment only
    obtain ⟨s', hs'⟩ : ∃ s', e.segments = [s'] := by
      rw [← List.length_eq_one_iff]
      have := List.length_pos_iff.mpr hsegments
      omega
    rw [hs', List.mem_singleton] at hs
    subst hs
    exact not_blank_of_singleton hread hs' (hpieces s (by simp [hs'])).2 hparts hfill

end Pattern

end Netlist
