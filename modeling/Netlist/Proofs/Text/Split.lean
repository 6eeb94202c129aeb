import Mathlib
import Netlist.Text.Blank

/-!
# Trimmed and split texts

Trimming leaves the white space inside of a text alone and does nothing the second time
(`trimChars_trimChars`).  The pieces that a text is split into at a character hold nothing
but characters of the text, and not that one; a text that is put together from pieces is split into
them again.
-/

namespace Netlist.Text

/-! ## White space -/

/-- The white space in front ends where it is dropped. -/
theorem not_isBlank_of_dropWhile {cs rest : List Char} {c : Char}
    (h : cs.dropWhile isBlank = c :: rest) : isBlank c = false := by
  have hhead := List.head_dropWhile_not isBlank (l := cs) (by simp [h])
  simpa [h] using hhead

theorem trimChars_eq_nil_iff {cs : List Char} : trimChars cs = [] ↔ ∀ c ∈ cs, isBlank c = true := by
  rw [trimChars, List.reverse_eq_nil_iff, List.dropWhile_eq_nil_iff]
  constructor
  · intro h
    have hnil : cs.dropWhile isBlank = [] := by
      cases hrest : cs.dropWhile isBlank with
      | nil => rfl
      | cons c rest =>
          have hhead := not_isBlank_of_dropWhile hrest
          rw [h c (by simp [hrest])] at hhead
          cases hhead
    exact List.dropWhile_eq_nil_iff.mp hnil
  · intro h c hc
    have hmem := List.mem_reverse.mp hc
    exact h c ((List.dropWhile_sublist _).subset hmem)

theorem isBlank_or_mem_trimChars {c : Char} {cs : List Char} (h : c ∈ cs) :
    isBlank c = true ∨ c ∈ trimChars cs := by
  have key : ∀ l : List Char, c ∈ l → isBlank c = true ∨ c ∈ l.dropWhile isBlank := by
    intro l hl
    rw [← List.takeWhile_append_dropWhile (p := isBlank) (l := l), List.mem_append] at hl
    rcases hl with hl | hl
    · exact .inl (List.mem_takeWhile_imp hl)
    · exact .inr hl
  rcases key cs h with hblank | hmem
  · exact .inl hblank
  · rcases key _ (List.mem_reverse.mpr hmem) with hblank | hmem
    · exact .inl hblank
    · exact .inr (List.mem_reverse.mpr hmem)

theorem trimChars_subset (cs : List Char) : trimChars cs ⊆ cs := by
  intro c hc
  have hmem := (List.dropWhile_sublist _).subset (List.mem_reverse.mp hc)
  exact (List.dropWhile_sublist _).subset (List.mem_reverse.mp hmem)

/-- Nothing is trimmed from a text without white space. -/
theorem trimChars_eq_self {cs : List Char} (h : ∀ c ∈ cs, isBlank c = false) :
    trimChars cs = cs := by
  have key : ∀ l : List Char, (∀ c ∈ l, isBlank c = false) → l.dropWhile isBlank = l := by
    intro l hl
    cases l with
    | nil => rfl
    | cons c l => rw [List.dropWhile_cons_of_neg (by simp [hl c (List.mem_cons_self ..)])]
  rw [trimChars, key cs h, key _ fun c hc => h c (List.mem_reverse.mp hc), List.reverse_reverse]

/-- A trimmed text is trimmed: what is left after the blanks at the end starts as before. -/
theorem trimChars_trimChars (cs : List Char) : trimChars (trimChars cs) = trimChars cs := by
  have hfront : (trimChars cs).dropWhile isBlank = trimChars cs := by
    obtain ⟨blanks, hend⟩ := List.rdropWhile_prefix isBlank (cs.dropWhile isBlank)
    cases htrim : trimChars cs with
    | nil => rfl
    | cons c rest =>
        have hdrop : cs.dropWhile isBlank = c :: (rest ++ blanks) := by
          rw [← hend, ← List.cons_append, ← htrim]
          rfl
        have hhead := not_isBlank_of_dropWhile hdrop
        rw [List.dropWhile_cons_of_neg (by simp [hhead])]
  rw [trimChars, hfront]
  exact List.rdropWhile_idempotent isBlank _

/-! ## Splitting -/

theorem subset_intercalate {α : Type} (sep : List α) : ∀ {ls : List (List α)} {l : List α}, l ∈ ls →
    l ⊆ sep.intercalate ls
  | [], _, h => absurd h List.not_mem_nil
  | [l'], l, h => by
      rw [List.mem_singleton] at h
      subst h
      simp
  | l' :: l'' :: ls, l, h => by
      intro a ha
      rw [List.intercalate_cons_cons]
      rcases List.mem_cons.mp h with rfl | h
      · simp [ha]
      · exact List.mem_append_right _ (subset_intercalate sep h ha)

theorem eq_or_mem_of_mem_intercalate {α : Type} {sep a : α} : ∀ {ls : List (List α)},
    a ∈ [sep].intercalate ls → a = sep ∨ ∃ l ∈ ls, a ∈ l
  | [], h => absurd h List.not_mem_nil
  | [l], h => .inr ⟨l, List.mem_cons_self .., by simpa using h⟩
  | l :: l' :: ls, h => by
      rw [List.intercalate_cons_cons, List.append_assoc, List.mem_append, List.mem_append,
        List.mem_singleton] at h
      rcases h with h | h | h
      · exact .inr ⟨l, List.mem_cons_self .., h⟩
      · exact .inl h
      · rcases eq_or_mem_of_mem_intercalate h with h | ⟨l'', hl'', h⟩
        · exact .inl h
        · exact .inr ⟨l'', List.mem_cons_of_mem _ hl'', h⟩

theorem subset_of_mem_splitOn {content item : List Char} {c : Char} (h : item ∈ content.splitOn c) :
    item ⊆ content := by
  have hsub := subset_intercalate [c] h
  rwa [List.intercalate_splitOn] at hsub

theorem not_mem_of_mem_splitOn {sep : Char} : ∀ {l piece : List Char}, piece ∈ l.splitOn sep →
    sep ∉ piece
  | [], piece, h => by simp_all
  | c :: l, piece, h => by
      rw [List.splitOn_cons_eq_if_modifyHead] at h
      split at h
      · rcases List.mem_cons.mp h with rfl | h
        · exact List.not_mem_nil
        · exact not_mem_of_mem_splitOn h
      · next hc =>
        have ih : ∀ piece ∈ l.splitOn sep, sep ∉ piece := fun _ => not_mem_of_mem_splitOn
        cases hl : l.splitOn sep with
        | nil => exact absurd hl (List.splitOn_ne_nil sep l)
        | cons first rest =>
            rw [hl] at h ih
            rcases List.mem_cons.mp h with rfl | h
            · rw [List.mem_cons, not_or]
              exact ⟨fun heq => hc (by simp [← heq]), ih first (List.mem_cons_self ..)⟩
            · exact ih piece (List.mem_cons_of_mem _ h)

theorem splitOn_pair {sep : Char} {first second : List Char} (h : sep ∉ first) (h' : sep ∉ second) :
    (first ++ sep :: second).splitOn sep = [first, second] := by
  have hfree : ∀ l ∈ [first, second], sep ∉ l := by simp [h, h']
  have hsplit := List.splitOn_intercalate sep hfree (List.cons_ne_nil _ _)
  rw [List.intercalate_cons_cons, List.intercalate_singleton, List.append_assoc] at hsplit
  exact hsplit

end Netlist.Text
