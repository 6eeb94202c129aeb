import Mathlib
import Netlist.Source.FileSet

/-!
# Offsets and positions

A *cut* of a content at an offset splits it into the whole lines above, the part of a line before
the offset and what follows (`Lines.Cut`).  There is a cut at every offset (`Cut.atOffset`) and one
at the start of every line (`Cut.exists_line`), and what the line index is used for is read off a
cut: the start of its line (`Cut.start?_line`), its position (`Cut.position_offset`), its offset
(`Cut.offset_position`) and the text of its line (`Cut.line_eq_text`).

Lines and columns have 32 bits, like offsets.  So the line and the column of a cut must fit, which
they do in every content of fewer than 2³² - 1 bytes (`Cut.line_lt`, `Cut.column_lt`).

Hence offsets and positions of such a content are turned into each other without loss, and its lines
are the pieces between its line feeds (`SourceFile.offsets_invert_positions`).
-/

namespace Netlist

namespace Lines

/-! ## The line index -/

theorem add_ofNat_succ (offset : UInt32) (n : Nat) :
    offset + UInt32.ofNat (n + 1) = offset + 1 + UInt32.ofNat n := by
  rw [UInt32.ofNat_add, UInt32.add_assoc, UInt32.add_comm 1]
  rfl

/-- The index of two pieces: the second is counted from where the first ends. -/
theorem indexFrom_append : ∀ (offset : UInt32) (a b : Bytes), indexFrom offset (a ++ b) =
    indexFrom offset a ++ indexFrom (offset + UInt32.ofNat a.length) b
  | offset, [], b => by simp [indexFrom]
  | offset, x :: a, b => by
      rw [List.cons_append, indexFrom, indexFrom, indexFrom_append (offset + 1) a b,
        List.length_cons, add_ofNat_succ]
      split
      · rfl
      · rfl

theorem index_append (a b : Bytes) :
    index (a ++ b) = index a ++ indexFrom (UInt32.ofNat a.length) b := by
  rw [index, indexFrom_append, UInt32.zero_add]
  rfl

/-- There is one entry for each line feed. -/
theorem length_indexFrom : ∀ (offset : UInt32) (a : Bytes),
    (indexFrom offset a).length = a.count lineFeed
  | _, [] => rfl
  | offset, x :: a => by
      rw [indexFrom, List.count_cons]
      split
      · rw [List.length_cons, length_indexFrom]
      · rw [length_indexFrom, Nat.add_zero]

theorem length_index (a : Bytes) : (index a).length = a.count lineFeed := length_indexFrom 0 a

/-- The offsets in an index lie in its content, as long as they have not wrapped. -/
theorem bounds_of_mem_indexFrom {x : UInt32} : ∀ {offset : UInt32} {a : Bytes},
    offset.toNat + a.length ≤ 2 ^ 32 → x ∈ indexFrom offset a →
      offset.toNat ≤ x.toNat ∧ x.toNat < offset.toNat + a.length
  | _, [], _, h => absurd h List.not_mem_nil
  | offset, b :: a, hsize, h => by
      rw [List.length_cons] at hsize ⊢
      have hlater : x ∈ indexFrom (offset + 1) a →
          offset.toNat ≤ x.toNat ∧ x.toNat < offset.toNat + (a.length + 1) := by
        intro hx
        have hne : a ≠ [] := by
          rintro rfl
          exact List.not_mem_nil hx
        have hpos := List.length_pos_iff.mpr hne
        have hnext : (offset + 1).toNat = offset.toNat + 1 := by
          rw [UInt32.toNat_add, UInt32.toNat_one, Nat.mod_eq_of_lt (by omega)]
        have := bounds_of_mem_indexFrom (by omega) hx
        omega
      rw [indexFrom] at h
      split at h
      · rcases List.mem_cons.mp h with rfl | h
        · omega
        · exact hlater h
      · exact hlater h

/-- The line feeds before an offset are those of the content up to there. -/
theorem takeWhile_index {a b : Bytes} (hsize : (a ++ b).length < 2 ^ 32) :
    (index (a ++ b)).takeWhile (· < UInt32.ofNat a.length) = index a := by
  rw [List.length_append] at hsize
  have hlength := UInt32.toNat_ofNat_of_lt' (show a.length < 2 ^ 32 by omega)
  have hfront : ∀ x ∈ index a, decide (x < UInt32.ofNat a.length) = true := by
    intro x hx
    have := bounds_of_mem_indexFrom (by rw [UInt32.toNat_zero]; omega) hx
    rw [UInt32.toNat_zero] at this
    rw [decide_eq_true_iff, UInt32.lt_iff_toNat_lt, hlength]
    omega
  rw [index_append, List.takeWhile_append_of_pos hfront]
  suffices h : (indexFrom (UInt32.ofNat a.length) b).takeWhile (· < UInt32.ofNat a.length) = [] by
    rw [h, List.append_nil]
  rw [List.takeWhile_eq_nil_iff]
  intro hpos hlt
  have := bounds_of_mem_indexFrom (by omega) (List.get_mem _ ⟨0, hpos⟩)
  rw [decide_eq_true_iff, UInt32.lt_iff_toNat_lt] at hlt
  omega

/-- The first line feed ends the first line. -/
theorem head?_indexFrom : ∀ (offset : UInt32) (a : Bytes),
    (indexFrom offset a).head?.getD (offset + UInt32.ofNat a.length) =
      offset + UInt32.ofNat (a.takeWhile (· != lineFeed)).length
  | _, [] => rfl
  | offset, x :: a => by
      rw [indexFrom]
      split
      · next hx =>
        rw [List.takeWhile_cons_of_neg (by simpa using hx)]
        simp
      · next hx =>
        rw [List.takeWhile_cons_of_pos (by simpa using hx), List.length_cons, List.length_cons,
          add_ofNat_succ, add_ofNat_succ, head?_indexFrom (offset + 1) a]

/-! ## Cuts -/

/-- Whole lines: nothing, or bytes that end with a line feed. -/
def Whole (bytes : Bytes) : Prop := bytes = [] ∨ ∃ front, bytes = front ++ [lineFeed]

/-- A content cut at an offset. -/
structure Cut where
  above : Bytes
  /-- The line up to the offset. -/
  before : Bytes
  /-- What follows the offset. -/
  after : Bytes
  whole_above : Whole above
  before_in_line : lineFeed ∉ before

namespace Cut

/-- The content that is cut. -/
def content (c : Cut) : Bytes := c.above ++ (c.before ++ c.after)

/-- Where the content is cut. -/
def offset (c : Cut) : Nat := c.above.length + c.before.length

/-- The number of the line that is cut. -/
def line (c : Cut) : Nat := c.above.count lineFeed + 1

/-- The column at which the line is cut. -/
def column (c : Cut) : Nat := c.before.length + 1

/-- The line that is cut. -/
def text (c : Cut) : Bytes := c.before ++ c.after.takeWhile (· != lineFeed)

/-- The cut of a content at an offset: the lines above end with the last line feed before it. -/
def atOffset (content : Bytes) (n : Nat) : Cut where
  above := (content.take n).rdropWhile (· != lineFeed)
  before := (content.take n).rtakeWhile (· != lineFeed)
  after := content.drop n
  whole_above := by
    by_cases hnil : (content.take n).rdropWhile (· != lineFeed) = []
    · exact .inl hnil
    · have hlast := List.rdropWhile_last_not _ _ hnil
      rw [bne_iff_ne, not_not] at hlast
      refine .inr ⟨((content.take n).rdropWhile (· != lineFeed)).dropLast, ?_⟩
      exact (List.dropLast_append_getLast hnil).symm.trans (by rw [hlast])
  before_in_line := fun h => by simpa using List.mem_rtakeWhile_imp h

/-- The cut at an offset is one of the content. -/
theorem content_atOffset (content : Bytes) (n : Nat) : (atOffset content n).content = content := by
  rw [Cut.content, ← List.append_assoc]
  exact (congrArg (· ++ content.drop n) List.rdropWhile_append_rtakeWhile).trans
    (List.take_append_drop ..)

/-- The cut at an offset inside the content has this offset. -/
theorem offset_atOffset {content : Bytes} {n : Nat} (h : n ≤ content.length) :
    (atOffset content n).offset = n := by
  have hparts := congrArg List.length
    (List.rdropWhile_append_rtakeWhile (p := (· != lineFeed)) (l := content.take n))
  rw [List.length_append, List.length_take_of_le h] at hparts
  exact hparts

/-- Every line that exists can be cut at its start. -/
theorem exists_line {content : Bytes} : ∀ {k : Nat}, k ≤ content.count lineFeed →
    ∃ c : Cut, c.content = content ∧ c.before = [] ∧ c.line = k + 1
  | 0, _ => ⟨⟨[], [], content, .inl rfl, List.not_mem_nil⟩, rfl, rfl, rfl⟩
  | k + 1, h => by
      obtain ⟨c, hcontent, hbefore, hline⟩ := exists_line (Nat.le_of_succ_le h)
      rw [Cut.content, hbefore, List.nil_append] at hcontent
      have hmem : lineFeed ∈ c.after := by
        rw [← hcontent, List.count_append] at h
        rw [line] at hline
        exact List.count_pos_iff.mp (by omega)
      -- the next line starts behind the next line feed
      obtain ⟨rest, tail, hafter, hrest⟩ := List.eq_append_cons_of_mem hmem
      refine ⟨⟨c.above ++ rest ++ [lineFeed], [], tail, .inr ⟨_, rfl⟩, List.not_mem_nil⟩, ?_,
        rfl, ?_⟩
      · rw [← hcontent, hafter, Cut.content]
        simp
      · rw [line, List.count_append, List.count_append, List.count_eq_zero_of_not_mem hrest,
          List.count_singleton_self, ← hline]
        rfl

section Index

variable (c : Cut)

theorem length_content :
    c.content.length = c.above.length + (c.before.length + c.after.length) := by
  rw [content, List.length_append, List.length_append]

theorem offset_le : c.offset ≤ c.content.length := by
  rw [offset, length_content]
  omega

/-- The line of a cut is at most its offset and one. -/
theorem line_lt (h : c.offset + 1 < 2 ^ 32) : c.line < 2 ^ 32 := by
  have : c.above.count lineFeed ≤ c.above.length := List.count_le_length
  rw [offset] at h
  rw [line]
  omega

theorem column_lt (h : c.offset + 1 < 2 ^ 32) : c.column < 2 ^ 32 := by
  rw [offset] at h
  rw [column]
  omega

theorem line_beq_zero (hline : c.line < 2 ^ 32) : (UInt32.ofNat c.line == 0) = false := by
  rw [beq_eq_false_iff_ne, ne_eq, ← UInt32.toNat_inj, UInt32.toNat_ofNat_of_lt' hline]
  exact Nat.succ_ne_zero _

/-- The line index finds the end of the lines above. -/
theorem start?_line (hline : c.line < 2 ^ 32) :
    start? (index c.content) (UInt32.ofNat c.line) = some (UInt32.ofNat c.above.length) := by
  rcases c.whole_above with habove | ⟨front, habove⟩
  · rw [line, habove]
    rfl
  · have hcount : c.line = front.count lineFeed + 2 := by
      rw [line, habove, List.count_append, List.count_singleton_self]
    have htwo : UInt32.ofNat c.line = UInt32.ofNat (front.count lineFeed) + 2 := by
      rw [hcount, UInt32.ofNat_add]
      rfl
    have hlarge : ¬ UInt32.ofNat c.line ≤ 1 := by
      rw [UInt32.le_iff_toNat_le, UInt32.toNat_ofNat_of_lt' hline, UInt32.toNat_one]
      omega
    have hindex : index c.content = index front ++ UInt32.ofNat front.length ::
        indexFrom (UInt32.ofNat front.length + 1) (c.before ++ c.after) := by
      rw [content, habove, List.append_assoc, index_append]
      rfl
    rw [start?, if_neg hlarge, htwo, UInt32.add_sub_cancel,
      UInt32.toNat_ofNat_of_lt' (show _ < 2 ^ 32 by omega), hindex, ← length_index,
      List.getElem?_append_right (Nat.le_refl _), Nat.sub_self, habove]
    simp

/-- The position of the offset of a cut is its line and column. -/
theorem position_offset (hsize : c.content.length < 2 ^ 32) (hline : c.line < 2 ^ 32) :
    position (index c.content) (UInt32.ofNat c.offset) =
      ⟨UInt32.ofNat c.line, UInt32.ofNat c.column⟩ := by
  have hcut : c.content = (c.above ++ c.before) ++ c.after := (List.append_assoc ..).symm
  have hfeeds :
      (index c.content).takeWhile (· < UInt32.ofNat c.offset) = index (c.above ++ c.before) := by
    rw [hcut, offset, ← List.length_append]
    exact takeWhile_index (hcut ▸ hsize)
  have hbefore : (index (c.above ++ c.before)).length + 1 = c.line := by
    rw [length_index, List.count_append, List.count_eq_zero_of_not_mem c.before_in_line]
    rfl
  rw [position, hfeeds, hbefore, c.start?_line hline, Option.getD_some, offset, column,
    Nat.add_comm, UInt32.ofNat_add, UInt32.ofNat_add, UInt32.add_sub_cancel]
  rfl

/-- The offset of the line and column of a cut is its offset. -/
theorem offset_position (hsize : c.content.length < 2 ^ 32) (hline : c.line < 2 ^ 32)
    (hcolumn : c.column < 2 ^ 32) :
    Lines.offset (index c.content) c.content.length ⟨UInt32.ofNat c.line, UInt32.ofNat c.column⟩ =
      UInt32.ofNat c.offset := by
  have hpos : 0 < UInt32.ofNat c.column := by
    rw [UInt32.lt_iff_toNat_lt, UInt32.toNat_ofNat_of_lt' hcolumn]
    exact Nat.succ_pos _
  have hstart :
      UInt32.ofNat c.above.length + (UInt32.ofNat c.column - 1) = UInt32.ofNat c.offset := by
    rw [column, UInt32.ofNat_add, offset, UInt32.ofNat_add]
    exact congrArg _ (UInt32.add_sub_cancel _ _)
  have hle : UInt32.ofNat c.offset ≤ UInt32.ofNat c.content.length := by
    have := c.offset_le
    rw [UInt32.le_iff_toNat_le, UInt32.toNat_ofNat_of_lt' hsize,
      UInt32.toNat_ofNat_of_lt' (show _ < 2 ^ 32 by omega)]
    exact this
  rw [Lines.offset, c.line_beq_zero hline]
  simp only [Bool.false_eq_true, if_false, c.start?_line hline, hpos, if_true, hstart]
  exact if_pos hle

/-- The text of a line goes up to the next line feed. -/
theorem text_eq_takeWhile : c.text = (c.before ++ c.after).takeWhile (· != lineFeed) := by
  have hbefore : ∀ b ∈ c.before, (b != lineFeed) = true := by
    intro b hb
    rw [bne_iff_ne]
    rintro rfl
    exact c.before_in_line hb
  rw [List.takeWhile_append_of_pos hbefore, text]

theorem above_add_text_le : c.above.length + c.text.length ≤ c.content.length := by
  have : c.text.length ≤ (c.before ++ c.after).length := by
    rw [text_eq_takeWhile]
    exact (List.takeWhile_prefix _).length_le
  rw [content, List.length_append]
  omega

/-- A line can be cut at every column up to its end. -/
theorem exists_column {m : Nat} (hm : m ≤ c.text.length) :
    ∃ d : Cut, d.content = c.content ∧ d.above = c.above ∧ d.before.length = m := by
  have hfree : lineFeed ∉ c.text.take m := by
    intro h
    rw [text_eq_takeWhile] at h
    simpa using List.mem_takeWhile_imp (List.mem_of_mem_take h)
  have htext : c.text.take m ++ (c.before ++ c.after).drop m = c.before ++ c.after := by
    obtain ⟨rest, hrest⟩ : c.text <+: c.before ++ c.after := by
      rw [text_eq_takeWhile]
      exact List.takeWhile_prefix _
    rw [← hrest, ← List.take_append_of_le_length hm, List.take_append_drop]
  refine ⟨⟨c.above, c.text.take m, (c.before ++ c.after).drop m, c.whole_above, hfree⟩, ?_, rfl, ?_⟩
  · exact congrArg (c.above ++ ·) htext
  · exact List.length_take_of_le hm

/-- The line ends at the next line feed. -/
theorem stop_line (hline : c.line < 2 ^ 32) :
    (index c.content)[(UInt32.ofNat c.line - 1).toNat]?.getD (UInt32.ofNat c.content.length) =
      UInt32.ofNat (c.above.length + c.text.length) := by
  have hcount : (UInt32.ofNat c.line - 1).toNat = (index c.above).length := by
    rw [line] at hline ⊢
    rw [UInt32.ofNat_add, length_index]
    exact (congrArg UInt32.toNat (UInt32.add_sub_cancel _ _)).trans
      (UInt32.toNat_ofNat_of_lt' (show _ < 2 ^ 32 by omega))
  rw [hcount, content, index_append, List.getElem?_append_right (Nat.le_refl _), Nat.sub_self,
    ← List.head?_eq_getElem?, List.length_append, UInt32.ofNat_add, head?_indexFrom,
    ← text_eq_takeWhile, ← UInt32.ofNat_add]

/-- The line with the number of a cut is the line of the cut. -/
theorem line_eq_text (hsize : c.content.length < 2 ^ 32) (hline : c.line < 2 ^ 32) :
    Lines.line c.content (index c.content) (UInt32.ofNat c.line) = c.text := by
  have hend := c.above_add_text_le
  have hstop : (UInt32.ofNat (c.above.length + c.text.length)).toNat =
      c.above.length + c.text.length := UInt32.toNat_ofNat_of_lt' (show _ < 2 ^ 32 by omega)
  have hstart : (UInt32.ofNat c.above.length).toNat = c.above.length :=
    UInt32.toNat_ofNat_of_lt' (show _ < 2 ^ 32 by omega)
  have horder : ¬ UInt32.ofNat (c.above.length + c.text.length) < UInt32.ofNat c.above.length := by
    rw [UInt32.lt_iff_toNat_lt, hstop, hstart]
    omega
  rw [Lines.line, c.line_beq_zero hline]
  simp only [Bool.false_eq_true, if_false, c.start?_line hline, c.stop_line hline, horder]
  rw [hstart, hstop, Nat.add_sub_cancel_left, content, List.drop_left, text_eq_takeWhile]
  conv_lhs =>
    arg 2
    rw [← List.takeWhile_append_dropWhile (p := (· != lineFeed)) (l := c.before ++ c.after)]
  exact List.take_left

end Index

end Cut

/-! ## The lines of a content -/

/-- There is one piece more than there are line feeds. -/
theorem length_splitOn : ∀ content : Bytes,
    (content.splitOn lineFeed).length = content.count lineFeed + 1
  | [] => rfl
  | b :: content => by
      have ih := length_splitOn content
      rw [List.splitOn_cons_eq_if_modifyHead, List.count_cons]
      split
      · rw [List.length_cons, ih]
      · rw [List.length_modifyHead, ih]

theorem head?_splitOn : ∀ content : Bytes,
    (content.splitOn lineFeed).head? = some (content.takeWhile (· != lineFeed))
  | [] => rfl
  | b :: content => by
      have ih := head?_splitOn content
      rw [List.splitOn_cons_eq_if_modifyHead]
      split
      · next hb =>
        rw [List.takeWhile_cons_of_neg (by simpa using hb)]
        rfl
      · next hb =>
        rw [List.takeWhile_cons_of_pos (by simpa using hb), List.head?_modifyHead, ih]
        rfl

/-- The line that is cut is the piece between line feeds with the same number. -/
theorem Cut.getElem?_splitOn (c : Cut) :
    (c.content.splitOn lineFeed)[c.above.count lineFeed]? = some c.text := by
  rcases c.whole_above with habove | ⟨front, habove⟩
  · rw [content, habove, List.nil_append, List.count_nil, ← List.head?_eq_getElem?, head?_splitOn,
      text_eq_takeWhile]
  · have hcount : c.above.count lineFeed = (front.splitOn lineFeed).length := by
      rw [habove, List.count_append, List.count_singleton_self, length_splitOn]
    rw [content, hcount, habove, List.append_assoc, List.singleton_append,
      List.splitOn_append_cons_self, List.getElem?_append_right (Nat.le_refl _), Nat.sub_self,
      ← List.head?_eq_getElem?, head?_splitOn, text_eq_takeWhile]

/-- The lines of a content are the pieces between its line feeds.  Only a content of 2³² - 1 line
feeds has a line whose number does not fit, and that line is empty. -/
theorem getElem?_splitOn {content : Bytes} (hsize : content.length < 2 ^ 32) {k : Nat}
    (hk : k ≤ content.count lineFeed) :
    (content.splitOn lineFeed)[k]? =
      some (line content (index content) (UInt32.ofNat (k + 1))) := by
  obtain ⟨c, rfl, hbefore, hline⟩ := Cut.exists_line hk
  have hpiece := c.getElem?_splitOn
  rw [show c.above.count lineFeed = k from Nat.succ.inj hline] at hpiece
  rw [hpiece, ← hline]
  by_cases hfits : c.line < 2 ^ 32
  · rw [c.line_eq_text hsize hfits]
  · have habove : c.above.count lineFeed ≤ c.above.length := List.count_le_length
    rw [Cut.line] at hfits
    have hend := c.above_add_text_le
    have hlast : c.line = 2 ^ 32 := by
      rw [Cut.line]
      omega
    rw [List.length_eq_zero_iff.mp (show c.text.length = 0 by omega), hlast]
    rfl

end Lines

/-! ## Files -/

namespace SourceFile

variable (f : SourceFile)

theorem line_eq (n : UInt32) : f.line n = Lines.line f.content (Lines.index f.content) n := by
  rw [line, f.lines_eq]

/-- Every offset of a file is one of a cut. -/
theorem exists_cut {n : Nat} (h : n ≤ f.content.length) :
    ∃ c : Lines.Cut, c.content = f.content ∧ c.offset = n :=
  ⟨_, Lines.Cut.content_atOffset f.content n, Lines.Cut.offset_atOffset h⟩

variable {f}

theorem position_cut {c : Lines.Cut} (hc : c.content = f.content)
    (hsize : f.content.length < 2 ^ 32)
    (hline : c.line < 2 ^ 32) :
    f.position (UInt32.ofNat c.offset) = ⟨UInt32.ofNat c.line, UInt32.ofNat c.column⟩ := by
  rw [position, f.lines_eq, ← hc, c.position_offset (hc ▸ hsize) hline]

/-- Positions are read off any cut at the offset. -/
theorem position_of_offset {c : Lines.Cut} {off : UInt32} (hc : c.content = f.content)
    (hoff : c.offset = off.toNat) (hsize : f.content.length < 2 ^ 32) (hline : c.line < 2 ^ 32) :
    f.position off = ⟨UInt32.ofNat c.line, UInt32.ofNat c.column⟩ := by
  rw [← position_cut hc hsize hline, hoff, UInt32.ofNat_toNat]

theorem offset_cut {c : Lines.Cut} (hc : c.content = f.content) (hsize : f.content.length < 2 ^ 32)
    (hline : c.line < 2 ^ 32) (hcolumn : c.column < 2 ^ 32) :
    f.offset ⟨UInt32.ofNat c.line, UInt32.ofNat c.column⟩ = UInt32.ofNat c.offset := by
  rw [offset, f.lines_eq, ← hc, c.offset_position (hc ▸ hsize) hline hcolumn]

/-- The position of an offset leads back to it. -/
theorem offset_position {off : UInt32} (hsize : f.content.length + 1 < 2 ^ 32)
    (hoff : off.toNat ≤ f.content.length) : f.offset (f.position off) = off := by
  obtain ⟨c, hc, hoffset⟩ := f.exists_cut hoff
  have hfits : c.offset + 1 < 2 ^ 32 := by omega
  rw [position_of_offset hc hoffset (by omega) (c.line_lt hfits),
    offset_cut hc (by omega) (c.line_lt hfits) (c.column_lt hfits), hoffset, UInt32.ofNat_toNat]

/-- The offset of a position inside a line leads back to it. -/
theorem position_offset {n m : UInt32} (hsize : f.content.length + 1 < 2 ^ 32) (hn : 1 ≤ n.toNat)
    (hlast : n.toNat ≤ f.content.count Lines.lineFeed + 1) (hm : 1 ≤ m.toNat)
    (hend : m.toNat ≤ (f.line n).length + 1) : f.position (f.offset ⟨n, m⟩) = ⟨n, m⟩ := by
  have hexists : n.toNat - 1 ≤ f.content.count Lines.lineFeed := by omega
  obtain ⟨start, hstart, -, hline⟩ := Lines.Cut.exists_line hexists
  have hnumber : n = UInt32.ofNat start.line := by
    rw [hline, Nat.sub_add_cancel hn, UInt32.ofNat_toNat]
  have htext : f.line n = start.text := by
    rw [line_eq, ← hstart, hnumber]
    exact start.line_eq_text (by rw [hstart]; omega) (by have := n.toNat_lt; omega)
  have hcolumn : m.toNat - 1 ≤ start.text.length := by
    rw [← htext]
    omega
  obtain ⟨c, hc, habove, hbefore⟩ := start.exists_column hcolumn
  rw [hstart] at hc
  have hfits : c.offset + 1 < 2 ^ 32 := by
    have := c.offset_le
    rw [hc] at this
    omega
  have hsame : n = UInt32.ofNat c.line := by rw [hnumber, Lines.Cut.line, Lines.Cut.line, habove]
  have hmark : m = UInt32.ofNat c.column := by
    rw [Lines.Cut.column, hbefore, Nat.sub_add_cancel hm, UInt32.ofNat_toNat]
  rw [hsame, hmark, offset_cut hc (by omega) (c.line_lt hfits) (c.column_lt hfits),
    position_cut hc (by omega) (c.line_lt hfits)]

/-- The lines of a file are the pieces between its line feeds. -/
theorem map_line_eq_splitOn (hsize : f.content.length < 2 ^ 32) :
    (List.range (f.content.count Lines.lineFeed + 1)).map (fun k => f.line (UInt32.ofNat (k + 1))) =
      f.content.splitOn Lines.lineFeed := by
  refine List.ext_getElem? fun k => ?_
  rw [List.getElem?_map]
  by_cases hk : k ≤ f.content.count Lines.lineFeed
  · rw [List.getElem?_range (Nat.lt_succ_of_le hk), Lines.getElem?_splitOn hsize hk,
      Option.map_some, line_eq]
  · rw [List.getElem?_eq_none (by simp; omega),
      List.getElem?_eq_none (by rw [Lines.length_splitOn]; omega)]
    rfl

/-- Offsets and positions of a file are turned into each other without loss, and its lines make up
its content. -/
theorem offsets_invert_positions (f : SourceFile) (hsize : f.content.length < 2 ^ 32 - 1) :
    (∀ off : UInt32, off.toNat ≤ f.content.length → f.offset (f.position off) = off) ∧
    (∀ n m : UInt32, 1 ≤ n.toNat → n.toNat ≤ f.content.count Lines.lineFeed + 1 →
      1 ≤ m.toNat → m.toNat ≤ (f.line n).length + 1 → f.position (f.offset ⟨n, m⟩) = ⟨n, m⟩) ∧
    [Lines.lineFeed].intercalate ((List.range (f.content.count Lines.lineFeed + 1)).map fun k =>
      f.line (UInt32.ofNat (k + 1))) = f.content := by
  have hfits : f.content.length + 1 < 2 ^ 32 := by omega
  refine ⟨fun off => offset_position hfits, fun n m => position_offset hfits, ?_⟩
  rw [map_line_eq_splitOn (by omega), List.intercalate_splitOn]

/-- An empty line in the middle and no line feed at the end. -/
def blankLine : SourceFile := .of 0 "a.yaml" [97, 98, 10, 10, 99] .none

theorem offsets_invert_positions_blankLine :
    blankLine.content.length < 2 ^ 32 - 1 ∧ blankLine.position 3 = ⟨2, 1⟩ ∧
      blankLine.offset (blankLine.position 3) = 3 ∧
      blankLine.position (blankLine.offset ⟨2, 1⟩) = ⟨2, 1⟩ ∧
      [Lines.lineFeed].intercalate ((List.range 3).map fun k =>
        blankLine.line (UInt32.ofNat (k + 1))) = [97, 98, 10, 10, 99] := by
  have hsize : blankLine.content.length < 2 ^ 32 - 1 := by decide
  obtain ⟨hoffset, hposition, hlines⟩ := offsets_invert_positions blankLine hsize
  exact ⟨hsize, by decide, hoffset 3 (by decide),
    hposition 2 1 (by decide) (by decide) (by decide) (by decide), hlines⟩

end SourceFile

end Netlist
