import Mathlib
import Netlist.Pattern.Lexeme

/-!
# What the scan of an expression gives

`Lexed pos cs ls` relates characters that start at a byte offset to lexemes without reading
the characters one by one: runs of plain characters, brackets around plain characters, and
separators.  When nothing in a scan is out of place, the scan is related to its text
(`lexed_scan`), so its lexemes lose no character.  The other way round, `scan_plain`,
`scan_group` and `scan_separator` say what the scan makes of each of the three.
-/

namespace Netlist.Pattern

open String (utf8Len utf8Len_append)

/-- No character has a meaning of its own. -/
def Plain (cs : List Char) : Prop := ∀ c ∈ cs, isSpecial c = false

theorem plain_nil : Plain [] := fun _ h => absurd h List.not_mem_nil

theorem Plain.cons {c : Char} {cs : List Char} (h : Plain cs) (hc : isSpecial c = false) :
    Plain (c :: cs) := by
  intro d hd
  rcases List.mem_cons.mp hd with rfl | hd
  · exact hc
  · exact h d hd

theorem Plain.append {cs ds : List Char} (h : Plain cs) (h' : Plain ds) : Plain (cs ++ ds) := by
  intro c hc
  rcases List.mem_append.mp hc with hc | hc
  · exact h c hc
  · exact h' c hc

theorem Plain.reverse {cs : List Char} (h : Plain cs) : Plain cs.reverse :=
  fun c hc => h c (List.mem_reverse.mp hc)

theorem isSpecial_eq_false_iff {c : Char} :
    isSpecial c = false ↔ c ≠ ';' ∧ c ≠ '<' ∧ c ≠ '>' ∧ c ≠ '[' ∧ c ≠ ']' := by
  simp [isSpecial, and_assoc]

theorem Delimiter.isSpecial_closing (d : Delimiter) : isSpecial d.closing = true := by
  cases d <;> decide

theorem utf8Len_brackets (d : Delimiter) (content : List Char) :
    utf8Len (d.opening :: (content ++ [d.closing])) = utf8Len content + 2 := by
  cases d <;> simp [Delimiter.opening, Delimiter.closing] <;> rfl

/-! ## What the scan makes of plain characters, groups and separators -/

theorem scan_outside_cons {c : Char} (hc : isSpecial c = false) (start pos : Nat)
    (read cs : List Char) : Lexeme.scan (.outside start read) pos (c :: cs) =
      Lexeme.scan (.outside start (c :: read)) (pos + c.utf8Size) cs := by
  obtain ⟨h₁, h₂, h₃, h₄, h₅⟩ := isSpecial_eq_false_iff.mp hc
  rw [Lexeme.scan]
  simp [h₁, h₂, h₃, h₄, h₅]

theorem scan_inside_cons {c : Char} (hc : isSpecial c = false) (start pos : Nat) (d : Delimiter)
    (read cs : List Char) : Lexeme.scan (.inside start d read) pos (c :: cs) =
      Lexeme.scan (.inside start d (c :: read)) (pos + c.utf8Size) cs := by
  obtain ⟨h₁, h₂, h₃, h₄, h₅⟩ := isSpecial_eq_false_iff.mp hc
  have hclosing : c ≠ d.closing := by
    rintro rfl
    rw [d.isSpecial_closing] at hc
    cases hc
  rw [Lexeme.scan]
  simp [h₁, h₂, h₃, h₄, h₅, hclosing]

/-- Plain characters are collected. -/
theorem scan_plain {run : List Char} (h : Plain run) (start pos : Nat) (read cs : List Char) :
    Lexeme.scan (.outside start read) pos (run ++ cs) =
      Lexeme.scan (.outside start (run.reverse ++ read)) (pos + utf8Len run) cs := by
  induction run generalizing pos read with
  | nil => rfl
  | cons c run ih =>
      have hrun : Plain run := fun d hd => h d (List.mem_cons_of_mem _ hd)
      rw [List.cons_append, scan_outside_cons (h c (List.mem_cons_self ..)), ih hrun]
      simp [Nat.add_assoc, Nat.add_comm]

theorem scan_inside_plain {run : List Char} (h : Plain run) (start pos : Nat) (d : Delimiter)
    (read cs : List Char) : Lexeme.scan (.inside start d read) pos (run ++ cs) =
      Lexeme.scan (.inside start d (run.reverse ++ read)) (pos + utf8Len run) cs := by
  induction run generalizing pos read with
  | nil => rfl
  | cons c run ih =>
      have hrun : Plain run := fun d hd => h d (List.mem_cons_of_mem _ hd)
      rw [List.cons_append, scan_inside_cons (h c (List.mem_cons_self ..)), ih hrun]
      simp [Nat.add_assoc, Nat.add_comm]

theorem scan_opening (start pos : Nat) (d : Delimiter) (read cs : List Char) :
    Lexeme.scan (.outside start read) pos (d.opening :: cs) =
      Lexeme.ofText start read ++ Lexeme.scan (.inside pos d []) (pos + 1) cs := by
  cases d <;> rw [Lexeme.scan] <;> rfl

theorem scan_closing (start pos : Nat) (d : Delimiter) (read cs : List Char) :
    Lexeme.scan (.inside start d read) pos (d.closing :: cs) =
      .group start d read.reverse :: Lexeme.scan (.outside (pos + 1) []) (pos + 1) cs := by
  rw [Lexeme.scan]
  simp

/-- A closed group is one lexeme. -/
theorem scan_group {content : List Char} (h : Plain content) (start pos : Nat) (d : Delimiter)
    (read cs : List Char) :
    Lexeme.scan (.outside start read) pos (d.opening :: (content ++ d.closing :: cs)) =
      Lexeme.ofText start read ++ .group pos d content ::
        Lexeme.scan (.outside (pos + utf8Len content + 2) []) (pos + utf8Len content + 2) cs := by
  rw [scan_opening, scan_inside_plain h, scan_closing]
  have hpos : pos + 1 + utf8Len content + 1 = pos + utf8Len content + 2 := by omega
  simp [hpos]

/-- A separator ends the text before it. -/
theorem scan_separator (start pos : Nat) (read cs : List Char) :
    Lexeme.scan (.outside start read) pos (';' :: cs) =
      Lexeme.ofText start read ++ .separator pos ::
        Lexeme.scan (.outside (pos + 1) []) (pos + 1) cs := by
  rw [Lexeme.scan]
  rfl

/-! ## Scans with nothing out of place -/

/-- Whether a lexeme can stand where it is. -/
def Lexeme.isProper : Lexeme → Bool
  | .text _ _ | .group _ _ _ | .separator _ => true
  | .stray _ _ | .nested _ _ | .unclosed _ _ _ => false

/-- The characters from an offset on are those of the lexemes. -/
inductive Lexed : Nat → List Char → List Lexeme → Prop
  | nil (pos : Nat) : Lexed pos [] []
  | text {pos : Nat} {run cs : List Char} {ls : List Lexeme} (hne : run ≠ []) (hplain : Plain run)
      (rest : Lexed (pos + utf8Len run) cs ls) : Lexed pos (run ++ cs) (.text pos run :: ls)
  | group {pos : Nat} {d : Delimiter} {content cs : List Char} {ls : List Lexeme}
      (hplain : Plain content) (rest : Lexed (pos + utf8Len content + 2) cs ls) :
      Lexed pos (d.opening :: (content ++ d.closing :: cs)) (.group pos d content :: ls)
  | separator {pos : Nat} {cs : List Char} {ls : List Lexeme} (rest : Lexed (pos + 1) cs ls) :
      Lexed pos (';' :: cs) (.separator pos :: ls)

theorem Lexed.ofText {start : Nat} {read cs : List Char} {ls : List Lexeme} (hplain : Plain read)
    (h : Lexed (start + utf8Len read) cs ls) :
    Lexed start (read.reverse ++ cs) (Lexeme.ofText start read ++ ls) := by
  cases read with
  | nil => exact h
  | cons c read =>
      have hne : (c :: read).reverse ≠ [] := by simp
      have hlength : utf8Len (c :: read).reverse = utf8Len (c :: read) := by simp [Nat.add_comm]
      rw [← hlength] at h
      exact .text hne hplain.reverse h

/-- Characters that are not plain either have a place outside of groups or are stray. -/
theorem isSpecial_cases {c : Char} (h : ¬ isSpecial c = false) :
    c = ';' ∨ (∃ d : Delimiter, c = d.opening) ∨ c = '>' ∨ c = ']' := by
  simp only [isSpecial_eq_false_iff, not_and_or, not_not] at h
  rcases h with rfl | rfl | rfl | rfl | rfl
  · exact .inl rfl
  · exact .inr (.inl ⟨.angle, rfl⟩)
  · exact .inr (.inr (.inl rfl))
  · exact .inr (.inl ⟨.square, rfl⟩)
  · exact .inr (.inr (.inr rfl))

/-- A closing bracket without an opening one is refused. -/
theorem not_proper_of_stray {c : Char} (hc : c = '>' ∨ c = ']') (start pos : Nat)
    (read cs : List Char) :
    (Lexeme.scan (.outside start read) pos (c :: cs)).all Lexeme.isProper = false := by
  rcases hc with rfl | rfl <;> rw [Lexeme.scan] <;> simp [Lexeme.isProper]

/-- Nothing but the closing bracket ends a group. -/
theorem not_proper_of_inside {c : Char} {d : Delimiter} (hc : ¬ isSpecial c = false)
    (hclosing : c ≠ d.closing) (start pos : Nat) (read cs : List Char) :
    (Lexeme.scan (.inside start d read) pos (c :: cs)).all Lexeme.isProper = false := by
  rw [Lexeme.scan, if_neg (by simpa using hclosing)]
  simp only [isSpecial_eq_false_iff, not_and_or, not_not] at hc
  rcases hc with rfl | rfl | rfl | rfl | rfl <;> rfl

/-- A scan with nothing out of place is related to what was read before and what is left.
The induction is on what is left; inside a group its bracket was read before. -/
theorem lexed_scan_from : ∀ cs : List Char,
    (∀ (start pos : Nat) (read : List Char), Plain read → pos = start + utf8Len read →
      (Lexeme.scan (.outside start read) pos cs).all Lexeme.isProper = true →
      Lexed start (read.reverse ++ cs) (Lexeme.scan (.outside start read) pos cs)) ∧
    (∀ (start pos : Nat) (d : Delimiter) (read : List Char), Plain read →
      pos = start + 1 + utf8Len read →
      (Lexeme.scan (.inside start d read) pos cs).all Lexeme.isProper = true →
      Lexed start (d.opening :: (read.reverse ++ cs)) (Lexeme.scan (.inside start d read) pos cs))
  | [] => by
      refine ⟨fun start pos read hplain _ _ => ?_, fun start pos d read _ _ h => ?_⟩
      · rw [Lexeme.scan, ← List.append_nil (Lexeme.ofText start read)]
        exact .ofText hplain (.nil _)
      · rw [Lexeme.scan] at h
        cases h
  | c :: cs => by
      obtain ⟨ihout, ihin⟩ := lexed_scan_from cs
      refine ⟨fun start pos read hplain hpos h => ?_, fun start pos d read hplain hpos h => ?_⟩
      · by_cases hc : isSpecial c = false
        · rw [scan_outside_cons hc] at h ⊢
          have hstep := ihout start (pos + c.utf8Size) (c :: read) (hplain.cons hc)
            (by simp [hpos]; omega) h
          simpa using hstep
        · rcases isSpecial_cases hc with rfl | ⟨d, rfl⟩ | hstray
          · rw [scan_separator] at h ⊢
            rw [List.all_append, List.all_cons, Bool.and_eq_true, Bool.and_eq_true] at h
            subst hpos
            exact .ofText hplain (.separator (ihout _ _ [] plain_nil rfl h.2.2))
          · rw [scan_opening] at h ⊢
            rw [List.all_append, Bool.and_eq_true] at h
            subst hpos
            exact .ofText hplain (ihin _ _ d [] plain_nil rfl h.2)
          · rw [not_proper_of_stray hstray] at h
            cases h
      · by_cases hc : isSpecial c = false
        · rw [scan_inside_cons hc] at h ⊢
          have hstep := ihin start (pos + c.utf8Size) d (c :: read) (hplain.cons hc)
            (by simp [hpos]; omega) h
          simpa using hstep
        · by_cases hclosing : c = d.closing
          · subst hclosing
            rw [scan_closing] at h ⊢
            rw [List.all_cons, Bool.and_eq_true] at h
            have hnext : start + utf8Len read.reverse + 2 = pos + 1 := by simp [hpos]; omega
            have hrest := ihout (pos + 1) (pos + 1) [] plain_nil rfl h.2
            rw [← hnext] at hrest ⊢
            exact .group hplain.reverse hrest
          · rw [not_proper_of_inside hc hclosing] at h
            cases h

/-- The lexemes of a text, when nothing is out of place, are those of its characters. -/
theorem lexed_lexemes {raw : String} (h : (lexemes raw).all Lexeme.isProper = true) :
    Lexed 0 raw.toList (lexemes raw) :=
  (lexed_scan_from raw.toList).1 0 0 [] plain_nil rfl h

end Netlist.Pattern
