import Netlist.Proofs.Pattern.GroupText
import Netlist.Proofs.Pattern.Groups

/-!
# Which lexemes make an expression

The reading goes on after most problems, so what it accepts is not to be seen from its steps.
`Assembled` relates lexemes to the segments that they make, with every segment holding a
piece and every group being one that can be read.  A reading finds no error exactly if its
lexemes are assembled in this way (`readWith_eq_some_iff`).
-/

namespace Netlist.Pattern

/-- The group that stands between two brackets at an offset. -/
def groupAt (lookup : String → NamedPattern) (raw : String) (limit pos : Nat) (d : Delimiter)
    (content : List Char) : Option Group :=
  (readGroup lookup raw limit d content pos).1

/-- Lexemes make segments.  The first segment starts at an offset and has pieces already, the
last one first; the last segment ends at `stop`.  `group` reads a group at an offset. -/
inductive Assembled (group : Nat → Delimiter → List Char → Option Group) (stop : Nat) :
    Nat → List Piece → List Lexeme → List Segment → Prop
  | finish {start : Nat} {pieces : List Piece} (hne : pieces ≠ []) :
      Assembled group stop start pieces [] [⟨pieces.reverse, start, stop⟩]
  | text {start pos : Nat} {pieces : List Piece} {chars : List Char} {ls : List Lexeme}
      {segments : List Segment}
      (h : Assembled group stop start (.text (String.ofList chars) :: pieces) ls segments) :
      Assembled group stop start pieces (.text pos chars :: ls) segments
  | group {start pos : Nat} {pieces : List Piece} {d : Delimiter} {content : List Char} {g : Group}
      {ls : List Lexeme} {segments : List Segment} (hg : group pos d content = some g)
      (h : Assembled group stop start (.group g :: pieces) ls segments) :
      Assembled group stop start pieces (.group pos d content :: ls) segments
  | separator {start pos : Nat} {pieces : List Piece} {ls : List Lexeme} {segments : List Segment}
      (hne : pieces ≠ []) (h : Assembled group stop (pos + 1) [] ls segments) :
      Assembled group stop start pieces (.separator pos :: ls)
        (⟨pieces.reverse, start, pos⟩ :: segments)

theorem Assembled.isProper {group : Nat → Delimiter → List Char → Option Group} {stop start : Nat}
    {pieces : List Piece} {ls : List Lexeme} {segments : List Segment}
    (h : Assembled group stop start pieces ls segments) : ls.all Lexeme.isProper = true := by
  induction h with
  | finish _ => rfl
  | text _ ih => exact ih
  | group _ _ ih => exact ih
  | separator _ _ ih => exact ih

/-! ## Errors of a reading -/

namespace Reading

/-- Whether an error was found. -/
def hasErrors (r : Reading) : Bool := r.findings.any Finding.isError

theorem hasErrors_note (r : Reading) (fs : List Finding) :
    (r.note fs).hasErrors = (fs.any Finding.isError || r.hasErrors) := by
  rw [hasErrors, note, List.any_append, List.any_reverse, hasErrors]

theorem hasErrors_finish (r : Reading) (raw : String) (stop : Nat) :
    (r.finish raw stop).hasErrors = (r.pieces.isEmpty && !r.broken || r.hasErrors) := by
  rw [finish]
  split
  · next h =>
    rw [h]
    exact hasErrors_note r _
  · next h =>
    rw [Bool.not_eq_true] at h
    rw [h]
    rfl

theorem segments_finish (r : Reading) (raw : String) (stop : Nat) :
    (r.finish raw stop).segments = ⟨r.pieces.reverse, r.start, stop⟩ :: r.segments := by
  rw [finish]
  split <;> rfl

/-- The reading with another piece. -/
def addPiece (r : Reading) (piece : Piece) : Reading := { r with pieces := piece :: r.pieces }

/-- The reading after a closed group. -/
def addGroup (r : Reading) (read : Option Group × List Finding) : Reading :=
  match read.1 with
  | some g => (r.note read.2).addPiece (.group g)
  | none => r.note read.2

theorem hasErrors_addGroup (r : Reading) (read : Option Group × List Finding) :
    (r.addGroup read).hasErrors = (read.2.any Finding.isError || r.hasErrors) := by
  rw [addGroup, ← hasErrors_note]
  split <;> rfl

section Steps

variable (lookup : String → NamedPattern) (raw : String) (limit : Nat) (noSplice : Bool)
  (r : Reading) (rest : List Lexeme)

theorem run_nil : run lookup raw limit noSplice r [] =
    if noSplice && 1 < (r.finish raw raw.utf8ByteSize).segments.length then
      (r.finish raw raw.utf8ByteSize).note [⟨.spliceRefused raw, 0, raw.utf8ByteSize⟩]
    else r.finish raw raw.utf8ByteSize := rfl

theorem run_text (pos : Nat) (chars : List Char) :
    run lookup raw limit noSplice r (.text pos chars :: rest) =
      run lookup raw limit noSplice (r.addPiece (.text (String.ofList chars))) rest := rfl

theorem run_separator (pos : Nat) :
    run lookup raw limit noSplice r (.separator pos :: rest) =
      run lookup raw limit noSplice (r.finish raw pos) rest := rfl

theorem run_addGroup (pos : Nat) (d : Delimiter) (content : List Char) :
    run lookup raw limit noSplice r (.group pos d content :: rest) =
      run lookup raw limit noSplice
        (r.addGroup (readGroup lookup raw limit d content pos)) rest := rfl

end Steps

variable {lookup : String → NamedPattern} {raw : String} {limit : Nat} {noSplice : Bool}

theorem findings_subset_note (r : Reading) (fs : List Finding) :
    r.findings ⊆ (r.note fs).findings :=
  List.subset_append_right ..

theorem findings_subset_finish (r : Reading) (raw : String) (stop : Nat) :
    r.findings ⊆ (r.finish raw stop).findings := by
  rw [finish]
  split
  · exact r.findings_subset_note _
  · exact List.Subset.refl _

theorem findings_addGroup (r : Reading) (read : Option Group × List Finding) :
    (r.addGroup read).findings = (r.note read.2).findings := by
  rw [addGroup]
  split <;> rfl

/-- What was found stays found. -/
theorem findings_subset_run : ∀ (ls : List Lexeme) (r : Reading),
    r.findings ⊆ (run lookup raw limit noSplice r ls).findings
  | [], r => by
      have hfinish := r.findings_subset_finish raw raw.utf8ByteSize
      rw [run_nil]
      split
      · exact List.Subset.trans hfinish (findings_subset_note _ _)
      · exact hfinish
  | lexeme :: rest, r => by
      have hrest (r' : Reading) (h : r.findings ⊆ r'.findings) :
          r.findings ⊆ (run lookup raw limit noSplice r' rest).findings :=
        List.Subset.trans h (findings_subset_run rest r')
      cases lexeme with
      | text _ chars => exact hrest (r.addPiece (.text (String.ofList chars))) (List.Subset.refl _)
      | separator pos => exact hrest _ (r.findings_subset_finish raw pos)
      | group pos d content =>
          rw [run_addGroup]
          refine hrest _ ?_
          rw [findings_addGroup]
          exact r.findings_subset_note _
      | stray pos c => exact hrest { r.note _ with broken := true } (r.findings_subset_note _)
      | nested start stop => exact r.findings_subset_note _
      | unclosed start stop d => exact r.findings_subset_note _

theorem hasErrors_run (ls : List Lexeme) {r : Reading} (h : r.hasErrors = true) :
    (run lookup raw limit noSplice r ls).hasErrors = true := by
  rw [hasErrors, List.any_eq_true] at h ⊢
  obtain ⟨f, hf, herror⟩ := h
  exact ⟨f, findings_subset_run ls r hf, herror⟩

/-- What is wrong with a group is found, if nothing before it ends the reading. -/
theorem findings_readGroup_subset_run {pos : Nat} {d : Delimiter} {content : List Char} :
    ∀ {ls : List Lexeme}, ls.all Lexeme.isProper = true → .group pos d content ∈ ls →
      ∀ r : Reading, (readGroup lookup raw limit d content pos).2 ⊆
        (run lookup raw limit noSplice r ls).findings
  | [], _, h, _ => absurd h List.not_mem_nil
  | lexeme :: rest, hproper, h, r => by
      rw [List.all_cons, Bool.and_eq_true] at hproper
      rcases List.mem_cons.mp h with rfl | h
      · rw [run_addGroup]
        refine List.Subset.trans ?_ (findings_subset_run rest _)
        rw [findings_addGroup]
        exact fun f hf => List.mem_append_left _ (List.mem_reverse.mpr hf)
      · have ih := findings_readGroup_subset_run hproper.2 h
        cases lexeme with
        | text _ chars => exact ih _
        | separator pos => exact ih _
        | group pos d content => rw [run_addGroup]; exact ih _
        | stray pos c => cases hproper.1
        | nested start stop => cases hproper.1
        | unclosed start stop d => cases hproper.1

/-- A lexeme that is out of place is an error. -/
theorem hasErrors_run_of_not_isProper {l : Lexeme} (h : l.isProper = false) (r : Reading)
    (rest : List Lexeme) : (run lookup raw limit noSplice r (l :: rest)).hasErrors = true := by
  cases l with
  | text _ _ => cases h
  | group _ _ _ => cases h
  | separator _ => cases h
  | stray pos c =>
      exact hasErrors_run rest (r := { r.note _ with broken := true }) (hasErrors_note r _)
  | nested start stop => exact hasErrors_note r _
  | unclosed start stop d => exact hasErrors_note r _

/-! ## Readings without errors -/

/-- A finished segment holds a piece, or an error was found. -/
theorem pieces_ne_nil_of_finish {r : Reading} (hbroken : r.broken = false) {stop : Nat}
    (h : (r.finish raw stop).hasErrors = false) : r.pieces ≠ [] := by
  intro hnil
  rw [hasErrors_finish, hnil, hbroken] at h
  cases h

/-- What a reading without errors made of its lexemes. -/
theorem assembled_of_run : ∀ (ls : List Lexeme) {r : Reading}, r.broken = false →
    (run lookup raw limit noSplice r ls).hasErrors = false →
    ∃ segments, Assembled (groupAt lookup raw limit)
        raw.utf8ByteSize r.start r.pieces ls segments ∧
      (run lookup raw limit noSplice r ls).segments = segments.reverse ++ r.segments ∧
      (noSplice = true → (segments.reverse ++ r.segments).length ≤ 1)
  | [], r, hbroken, h => by
      rw [run_nil] at h ⊢
      split at h
      · rw [hasErrors_note] at h
        cases h
      · next hsplice =>
        rw [if_neg hsplice]
        have hsegments := segments_finish r raw raw.utf8ByteSize
        refine ⟨_, .finish (pieces_ne_nil_of_finish hbroken h), hsegments, fun hno => ?_⟩
        rw [hno, Bool.true_and, decide_eq_true_iff, hsegments] at hsplice
        exact Nat.le_of_not_lt hsplice
  | lexeme :: rest, r, hbroken, h => by
      have herrors (r' : Reading)
          (hr' : (run lookup raw limit noSplice r' rest).hasErrors = false) :
          r'.hasErrors = false := by
        rw [← Bool.not_eq_true]
        intro hr
        rw [hasErrors_run rest hr] at hr'
        cases hr'
      cases lexeme with
      | text pos chars =>
          rw [run_text] at h ⊢
          have hadded : (r.addPiece (.text (String.ofList chars))).broken = false := hbroken
          obtain ⟨segments, hassembled, hrest⟩ := assembled_of_run rest hadded h
          exact ⟨segments, .text hassembled, hrest⟩
      | separator pos =>
          rw [run_separator] at h ⊢
          obtain ⟨segments, hassembled, hrest, hcount⟩ := assembled_of_run rest rfl h
          have hne := pieces_ne_nil_of_finish hbroken (herrors _ h)
          refine ⟨_, .separator hne hassembled, ?_, ?_⟩
          · rw [hrest, segments_finish]
            simp
          · intro hno
            have := hcount hno
            rw [segments_finish] at this
            simpa using this
      | group pos d content =>
          rw [run_addGroup] at h ⊢
          have hr := herrors _ h
          rw [hasErrors_addGroup, hasError_readGroup, Bool.or_eq_false_iff] at hr
          obtain ⟨g, hg⟩ := Option.isSome_iff_exists.mp (Option.isNone_eq_false_iff.mp hr.1)
          have hadd : r.addGroup (readGroup lookup raw limit d content pos) =
              (r.note (readGroup lookup raw limit d content pos).2).addPiece (.group g) := by
            rw [addGroup, hg]
          rw [hadd] at h ⊢
          have hadded : ((r.note (readGroup lookup raw limit d content pos).2).addPiece
              (.group g)).broken = false := hbroken
          obtain ⟨segments, hassembled, hrest⟩ := assembled_of_run rest hadded h
          exact ⟨segments, .group hg hassembled, hrest⟩
      | stray pos c =>
          rw [hasErrors_run_of_not_isProper rfl] at h
          cases h
      | nested start stop =>
          rw [hasErrors_run_of_not_isProper rfl] at h
          cases h
      | unclosed start stop d =>
          rw [hasErrors_run_of_not_isProper rfl] at h
          cases h

/-- Assembled lexemes are read without errors. -/
theorem run_of_assembled {ls : List Lexeme} {start : Nat} {pieces : List Piece}
    {segments : List Segment}
    (h : Assembled (groupAt lookup raw limit)
      raw.utf8ByteSize start pieces ls segments) :
    ∀ {r : Reading}, r.start = start → r.pieces = pieces → r.hasErrors = false →
      (noSplice = true → (segments.reverse ++ r.segments).length ≤ 1) →
      (run lookup raw limit noSplice r ls).hasErrors = false ∧
      (run lookup raw limit noSplice r ls).segments = segments.reverse ++ r.segments := by
  induction h with
  | @finish start pieces hne =>
      rintro r rfl rfl herrors hcount
      have hsegments := segments_finish r raw raw.utf8ByteSize
      have hempty : r.pieces.isEmpty = false := by simpa using hne
      rw [run_nil, hsegments, if_neg]
      · rw [hasErrors_finish, hempty, herrors]
        exact ⟨rfl, hsegments⟩
      · rw [Bool.and_eq_true, decide_eq_true_iff]
        rintro ⟨hno, hlt⟩
        exact absurd (hcount hno) (Nat.not_le_of_lt hlt)
  | @text start pos pieces chars ls segments _ ih =>
      rintro r rfl rfl herrors hcount
      exact ih (r := r.addPiece (.text (String.ofList chars))) rfl rfl herrors hcount
  | @group start pos pieces d content g ls segments hg _ ih =>
      rintro r rfl rfl herrors hcount
      rw [groupAt] at hg
      rw [run_addGroup, addGroup, hg]
      refine ih (r := (r.note _).addPiece (.group g)) rfl rfl ?_ hcount
      change (r.note _).hasErrors = false
      rw [hasErrors_note, hasError_readGroup, hg, herrors]
      rfl
  | @separator start pos pieces ls segments hne _ ih =>
      rintro r rfl rfl herrors hcount
      have hempty : r.pieces.isEmpty = false := by simpa using hne
      have hsegments := segments_finish r raw pos
      have hjoin : segments.reverse ++ (r.finish raw pos).segments =
          (⟨r.pieces.reverse, r.start, pos⟩ :: segments).reverse ++ r.segments := by
        rw [hsegments]
        simp
      rw [run_separator, ← hjoin]
      rw [← hjoin] at hcount
      refine ih rfl rfl ?_ hcount
      rw [hasErrors_finish, hempty, herrors]
      rfl

end Reading

/-- An expression is accepted exactly if it is not blank, its lexemes make segments, and
there is one segment where no more are allowed. -/
theorem readWith_eq_some_iff {lookup : String → NamedPattern} {limit : Nat} {noSplice : Bool}
    {raw : String} {e : Expression} : (readWith lookup limit noSplice raw).1 = some e ↔
      Text.isBlankText raw = false ∧ e.raw = raw ∧ (noSplice = true → e.segments.length ≤ 1) ∧
      Assembled (groupAt lookup raw limit)
        raw.utf8ByteSize 0 [] (lexemes raw) e.segments := by
  have hresult : (readWith lookup limit noSplice raw).1 =
      if Text.isBlankText raw then none
      else if (Reading.run lookup raw limit noSplice {} (lexemes raw)).hasErrors then none
      else
        some ⟨raw, (Reading.run lookup raw limit noSplice {} (lexemes raw)).segments.reverse⟩ := by
    rw [readWith, Reading.hasErrors]
    simp only [List.any_reverse]
    split
    · rfl
    · split <;> rfl
  rw [hresult]
  cases hblank : Text.isBlankText raw with
  | true => simp
  | false =>
      simp only [Bool.false_eq_true, if_false, true_and]
      constructor
      · intro h
        split at h
        · cases h
        · next herrors =>
          rw [Bool.not_eq_true] at herrors
          obtain ⟨segments, hassembled, hsegments, hcount⟩ := Reading.assembled_of_run _ rfl herrors
          cases h
          simp only [hsegments, List.append_nil, List.reverse_reverse]
          exact ⟨trivial, by simpa using hcount, hassembled⟩
      · rintro ⟨hraw, hcount, hassembled⟩
        have hcount' :
            noSplice = true → (e.segments.reverse ++ ([] : List Segment)).length ≤ 1 := by
          simpa using hcount
        obtain ⟨herrors, hsegments⟩ :=
          Reading.run_of_assembled hassembled (r := {}) rfl rfl rfl hcount'
        rw [herrors, hsegments]
        cases e
        simp_all

end Netlist.Pattern
