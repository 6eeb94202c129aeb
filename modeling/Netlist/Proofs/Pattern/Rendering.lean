import Netlist.Proofs.Pattern.Folding

/-!
# Reading what was rendered

The text that atoms are rendered to is words with separators between them, and a word is a
text with at most one group after it (`toList_render`).  The scan cuts it there again
(`lexemes_of_words`), and each word stands for the atoms of its run, so that the text stands
for all the atoms it was made of, unless one of its groups is taken for a reference
(`expand_render`).
-/

namespace Netlist.Pattern

open String (utf8Len)

/-! ## Words -/

/-- A text with a group after it, if there is one. -/
structure Word where
  stem : List Char
  /-- The brackets of the group and what stands between them. -/
  group : Option (Delimiter × List Char)

/-- The characters of a word. -/
def Word.text (w : Word) : List Char :=
  w.stem ++ w.group.elim [] fun g => g.1.opening :: (g.2 ++ [g.1.closing])

/-- A word that is not empty and in which no character has a meaning but the brackets. -/
structure Word.Proper (w : Word) : Prop where
  stem : Plain w.stem
  content : ∀ g ∈ w.group, Plain g.2
  ne_nil : w.group = none → w.stem ≠ []

/-- The lexemes of a word at an offset. -/
def Word.lexemes (w : Word) (pos : Nat) : List Lexeme :=
  Lexeme.ofText pos w.stem.reverse ++
    w.group.toList.map fun g => .group (pos + utf8Len w.stem) g.1 g.2

theorem Word.isProper_lexemes (w : Word) (pos : Nat) :
    (w.lexemes pos).all Lexeme.isProper = true := by
  rw [Word.lexemes, Lexeme.ofText]
  split <;> cases w.group <;> rfl

theorem Word.mem_lexemes {w : Word} {g : Delimiter × List Char} (h : g ∈ w.group) (pos : Nat) :
    ∃ p, Lexeme.group p g.1 g.2 ∈ w.lexemes pos := by
  refine ⟨_, List.mem_append_right _ (List.mem_map.mpr ⟨g, ?_, rfl⟩)⟩
  exact Option.mem_toList.mpr h

/-- The lexemes of words with separators between them, from an offset on. -/
def lexemesOf : Nat → List Word → List Lexeme
  | _, [] => []
  | pos, [w] => w.lexemes pos
  | pos, w :: w' :: ws =>
    w.lexemes pos ++ .separator (pos + utf8Len w.text) ::
      lexemesOf (pos + utf8Len w.text + 1) (w' :: ws)

/-- A text ends at a separator or at the end. -/
theorem scan_flush {tail : List Char} (h : tail.head?.all (· == ';') = true) (start pos : Nat)
    (read : List Char) : Lexeme.scan (.outside start read) pos tail =
      Lexeme.ofText start read ++ Lexeme.scan (.outside pos []) pos tail := by
  cases tail with
  | nil => simp [Lexeme.scan, Lexeme.ofText]
  | cons c tail =>
      obtain rfl : c = ';' := by simpa using h
      rw [scan_separator, scan_separator]
      simp [Lexeme.ofText]

theorem scan_word {w : Word} (hw : w.Proper) {tail : List Char}
    (h : tail.head?.all (· == ';') = true) (pos : Nat) :
    Lexeme.scan (.outside pos []) pos (w.text ++ tail) = w.lexemes pos ++
      Lexeme.scan (.outside (pos + utf8Len w.text) []) (pos + utf8Len w.text) tail := by
  rw [Word.text, Word.lexemes]
  cases hgroup : w.group with
  | none =>
      simp only [Option.elim_none, List.append_nil, Option.toList_none, List.map_nil]
      rw [scan_plain hw.stem, scan_flush h, List.append_nil]
  | some g =>
      have hcontent : Plain g.2 := hw.content g hgroup
      simp only [Option.elim_some, Option.toList_some, List.map_cons, List.map_nil]
      rw [List.append_assoc, scan_plain hw.stem, List.append_nil, List.cons_append,
        List.append_assoc, List.singleton_append, scan_group hcontent, String.utf8Len_append,
        utf8Len_brackets, List.append_assoc, List.singleton_append, Nat.add_assoc, Nat.add_assoc]

/-- The scan finds the words and the separators between them. -/
theorem lexemes_of_words : ∀ {ws : List Word}, ws ≠ [] → (∀ w ∈ ws, w.Proper) → ∀ pos : Nat,
    Lexeme.scan (.outside pos []) pos ([';'].intercalate (ws.map Word.text)) = lexemesOf pos ws
  | [], hne, _, _ => absurd rfl hne
  | [w], _, hws, pos => by
      have hend : ([] : List Char).head?.all (· == ';') = true := rfl
      have hscan := scan_word (hws w (List.mem_cons_self ..)) hend pos
      rw [List.append_nil] at hscan
      rw [List.map_singleton, List.intercalate_singleton, hscan, lexemesOf, Lexeme.scan]
      exact List.append_nil _
  | w :: w' :: ws, _, hws, pos => by
      obtain ⟨hw, hrest⟩ := List.forall_mem_cons.mp hws
      have ih := lexemes_of_words (List.cons_ne_nil w' ws) hrest (pos + utf8Len w.text + 1)
      have hne : (w' :: ws).map Word.text ≠ [] := by simp
      rw [List.map_cons, List.intercalate_cons_of_ne_nil hne, List.append_assoc,
        scan_word hw rfl, List.singleton_append, scan_separator, ih, lexemesOf]
      rfl

/-! ## Words that were read -/

/-- The pieces that a word is read as. -/
inductive Word.ReadAs (group : Nat → Delimiter → List Char → Option Group) :
    Word → List Piece → Prop
  | text {stem : List Char} (hne : stem ≠ []) :
      ReadAs group ⟨stem, none⟩ [.text (String.ofList stem)]
  | group {stem : List Char} {shape : Delimiter × List Char} {pos : Nat} {g : Group}
      (hg : group pos shape.1 shape.2 = some g) :
      ReadAs group ⟨stem, some shape⟩ (withText stem.reverse [] ++ [.group g])

/-- The lexemes of a word add its pieces, if its group can be read. -/
theorem Word.exists_readAs {group : Nat → Delimiter → List Char → Option Group} {w : Word}
    (hw : w.Proper) (h : ∀ g ∈ w.group, ∀ pos, (group pos g.1 g.2).isSome = true) (pos : Nat) :
    ∃ pieces, pieces ≠ [] ∧ w.ReadAs group pieces.reverse ∧
      ∀ {stop start : Nat} {ls : List Lexeme} {segments : List Segment},
        Assembled group stop start pieces ls segments →
        Assembled group stop start [] (w.lexemes pos ++ ls) segments := by
  obtain ⟨stem, _ | shape⟩ := w
  · have hne : stem ≠ [] := hw.ne_nil rfl
    refine ⟨[.text (String.ofList stem)], List.cons_ne_nil _ _, .text hne, fun hrest => ?_⟩
    have htext : withText stem.reverse [] = [.text (String.ofList stem)] := by
      simp [withText, hne]
    rw [← htext] at hrest
    simpa [Word.lexemes] using hrest.ofText pos
  · obtain ⟨g, hg⟩ := Option.isSome_iff_exists.mp (h shape rfl (pos + utf8Len stem))
    refine ⟨.group g :: withText stem.reverse [], List.cons_ne_nil _ _, ?_, fun hrest => ?_⟩
    · have hstem : (withText stem.reverse []).reverse = withText stem.reverse [] := by
        rw [withText]
        split <;> rfl
      rw [List.reverse_cons, hstem]
      exact .group hg
    · simpa [Word.lexemes] using Assembled.ofText (.group hg hrest) pos

/-- Words whose groups can be read are read, each as a segment. -/
theorem exists_assembled_words {group : Nat → Delimiter → List Char → Option Group} (stop : Nat) :
    ∀ {ws : List Word}, ws ≠ [] → (∀ w ∈ ws, w.Proper) →
      (∀ w ∈ ws, ∀ g ∈ w.group, ∀ pos, (group pos g.1 g.2).isSome = true) → ∀ start pos : Nat,
      ∃ segments, Assembled group stop start [] (lexemesOf pos ws) segments ∧
        List.Forall₂ (fun w (s : Segment) => w.ReadAs group s.pieces) ws segments
  | [], hne, _, _, _, _ => absurd rfl hne
  | [w], _, hws, hgroups, start, pos => by
      obtain ⟨pieces, hne, hread, hadd⟩ := Word.exists_readAs (hws w (List.mem_cons_self ..))
        (hgroups w (List.mem_cons_self ..)) pos
      have hassembled : Assembled group stop start [] (w.lexemes pos ++ [])
        [⟨pieces.reverse, start, stop⟩] := hadd (.finish hne)
      rw [List.append_nil] at hassembled
      exact ⟨_, hassembled, .cons hread .nil⟩
  | w :: w' :: ws, _, hws, hgroups, start, pos => by
      obtain ⟨hw, hrest⟩ := List.forall_mem_cons.mp hws
      obtain ⟨hgroup, hmore⟩ := List.forall_mem_cons.mp hgroups
      obtain ⟨pieces, hne, hread, hadd⟩ := Word.exists_readAs hw hgroup pos
      obtain ⟨segments, hassembled, hsegments⟩ := exists_assembled_words stop
        (List.cons_ne_nil w' ws) hrest hmore (pos + utf8Len w.text + 1) (pos + utf8Len w.text + 1)
      exact ⟨_, hadd (.separator hne hassembled), .cons hread hsegments⟩

theorem isProper_lexemesOf : ∀ (ws : List Word) (pos : Nat),
    (lexemesOf pos ws).all Lexeme.isProper = true
  | [], _ => rfl
  | [w], pos => w.isProper_lexemes pos
  | w :: w' :: ws, pos => by
      rw [lexemesOf, List.all_append, w.isProper_lexemes, List.all_cons, isProper_lexemesOf]
      rfl

theorem mem_lexemesOf : ∀ {ws : List Word} {w : Word}, w ∈ ws → ∀ {g : Delimiter × List Char},
    g ∈ w.group → ∀ pos : Nat, ∃ p, Lexeme.group p g.1 g.2 ∈ lexemesOf pos ws
  | [], _, h, _, _, _ => absurd h List.not_mem_nil
  | [w'], w, h, g, hg, pos => by
      rw [List.mem_singleton] at h
      subst h
      exact w.mem_lexemes hg pos
  | w' :: w'' :: ws, w, h, g, hg, pos => by
      rw [lexemesOf]
      rcases List.mem_cons.mp h with rfl | h
      · obtain ⟨p, hp⟩ := w.mem_lexemes hg pos
        exact ⟨p, List.mem_append_left _ hp⟩
      · obtain ⟨p, hp⟩ := mem_lexemesOf h hg (pos + utf8Len w'.text + 1)
        exact ⟨p, List.mem_append_right _ (List.mem_cons_of_mem _ hp)⟩

/-! ## Texts of segments -/

/-- The texts that a segment stands for. -/
def Segment.texts (s : Segment) : List String := (tuples (columns s.pieces)).map (fill s.pieces)

theorem map_literal_productFrom : ∀ (segments : List Segment) (number : Nat),
    (productFrom number segments).map (·.literal) = segments.flatMap Segment.texts
  | [], _ => rfl
  | s :: segments, number => by
      rw [productFrom_cons, List.map_append, map_literal_productFrom segments, Segment.atoms_eq,
        List.map_map, List.flatMap_cons]
      rfl

theorem tuples_singleton (column : List Part) : tuples [column] = column.map fun p => [p] := by
  simp [tuples, List.map_eq_flatMap]

theorem texts_of_text {s : Segment} {t : String} (h : s.pieces = [.text t]) : s.texts = [t] := by
  simp [Segment.texts, h, tuples, fill]

theorem texts_of_group {s : Segment} {stem : List Char} {g : Group}
    (h : s.pieces = withText stem.reverse [] ++ [.group g]) :
    s.texts = g.items.map fun p => String.ofList stem ++ p.text := by
  by_cases hstem : stem = []
  · simp [Segment.texts, h, hstem, withText, tuples_singleton, fill]
  · simp [Segment.texts, h, hstem, withText, tuples_singleton, fill]

/-! ## Words of runs -/

/-- The word that a run is written as. -/
def wordOf (run : List Atom) : Word :=
  match run with
  | [a] => ⟨a.literal.toList, none⟩
  | run => ⟨runStem run, some (groupShape (lastParts run))⟩

theorem wordOf_cons_cons (a b : Atom) (run : List Atom) : wordOf (a :: b :: run) =
    ⟨runStem (a :: b :: run), some (groupShape (lastParts (a :: b :: run)))⟩ := rfl

theorem toList_renderRun : ∀ run : List Atom, (renderRun run).toList = (wordOf run).text
  | [] => by simp [renderRun, wordOf, Word.text, toList_renderGroup]
  | [a] => by simp [renderRun, wordOf, Word.text]
  | a :: b :: run => by simp [renderRun, wordOf, Word.text, toList_renderGroup]

/-- Atoms are rendered as the words of their runs. -/
theorem toList_render (atoms : List Atom) :
    (render atoms).toList = [';'].intercalate (((runs atoms).map wordOf).map Word.text) := by
  rw [render, String.toList_intercalate, renderRuns_eq_map, List.map_map, List.map_map]
  exact congrArg _ (List.map_congr_left fun run _ => toList_renderRun run)

theorem splitLast?_spec {a : Atom} {stem : List Char} {p : Part}
    (h : splitLast? a = some (stem, p)) :
    p ∈ a.parts ∧ a.literal.toList = stem ++ p.text.toList := by
  obtain ⟨last, hlast, h⟩ := Option.bind_eq_some_iff.mp h
  dsimp only at h
  split at h
  · next hsuffix =>
    cases h
    obtain ⟨front, hfront⟩ := List.isSuffixOf_iff_suffix.mp hsuffix
    refine ⟨List.mem_of_getLast? hlast, ?_⟩
    rw [← hfront]
    simp
  · cases h

section

variable {limit : Nat} {atoms : List Atom} (hw : AtomsWritable limit atoms)

theorem subset_of_mem_runs {run : List Atom} (h : run ∈ runs atoms) : run ⊆ atoms := by
  have hsub := (List.sublist_flatten_of_mem h).subset
  rwa [runs, List.flatten_splitBy] at hsub

include hw

/-- The parts of a run can be written as a group, and with the text before it they make up the
atoms. -/
theorem foldable_of_mem_runs {a b : Atom} {run : List Atom} (h : a :: b :: run ∈ runs atoms) :
    Foldable limit (lastParts (a :: b :: run)) ∧ Plain (runStem (a :: b :: run)) ∧
      (a :: b :: run).map (·.literal) = (lastParts (a :: b :: run)).map fun p =>
        String.ofList (runStem (a :: b :: run)) ++ p.text := by
  obtain ⟨stem, first, parts, hends⟩ := exists_endsIn_of_mem_runs h
  rw [lastParts_eq hends, runStem_eq hends]
  have hsub := subset_of_mem_runs h
  have hspec : ∀ p ∈ first :: parts, p.Writable ∧ p.sameKind first = true := by
    intro p hp
    obtain ⟨x, hx, hxp⟩ := forall₂_exists_of_mem_right hends hp
    exact ⟨hw.parts x (hsub hx) p (splitLast?_spec hxp.1).1, hxp.2⟩
  have hlength : (first :: parts).length ≤ limit := by
    have hle := (List.sublist_flatten_of_mem h).length_le
    rw [runs, List.flatten_splitBy] at hle
    rw [← hends.length_eq]
    exact Nat.le_trans hle hw.length_le
  refine ⟨⟨?_, hlength, fun p hp => (hspec p hp).1, fun p hp q hq => ?_⟩, ?_, ?_⟩
  · rw [← hends.length_eq]
    simp
  · refine Part.sameKind_trans (hspec p hp).2 ?_
    rw [Part.sameKind_comm]
    exact (hspec q hq).2
  · have ha := hw.plain a (hsub (List.mem_cons_self ..))
    cases hends with
    | cons hfirst _ =>
        rw [(splitLast?_spec hfirst.1).2] at ha
        exact fun c hc => ha c (List.mem_append_left _ hc)
  · have hliterals : List.Forall₂ (fun (x : Atom) p => x.literal = String.ofList stem ++ p.text)
        (a :: b :: run) (first :: parts) := by
      refine hends.imp fun x p hxp => ?_
      rw [← String.toList_inj, String.toList_append, String.toList_ofList]
      exact (splitLast?_spec hxp.1).2
    rw [← List.forall₂_eq_eq_eq, List.forall₂_map_left_iff, List.forall₂_map_right_iff]
    exact hliterals

theorem proper_wordOf {run : List Atom} (h : run ∈ runs atoms) : (wordOf run).Proper := by
  obtain _ | ⟨a, _ | ⟨b, run⟩⟩ := run
  · exact absurd rfl (List.ne_nil_of_mem_splitBy h)
  · have ha := subset_of_mem_runs h (List.mem_cons_self ..)
    exact ⟨hw.plain a ha, by simp [wordOf], fun _ => hw.literal_ne_nil a ha⟩
  · obtain ⟨hfold, hstem, -⟩ := foldable_of_mem_runs hw h
    rw [wordOf_cons_cons]
    refine ⟨hstem, fun g hg => ?_, by simp⟩
    cases hg
    exact hfold.plain_content

theorem forall_proper : ∀ w ∈ (runs atoms).map wordOf, w.Proper := by
  intro w hmem
  obtain ⟨run, hrun, rfl⟩ := List.mem_map.mp hmem
  exact proper_wordOf hw hrun

theorem lexemes_render : lexemes (render atoms) = lexemesOf 0 ((runs atoms).map wordOf) := by
  have hne : (runs atoms).map wordOf ≠ [] := by
    simpa [runs] using hw.ne_nil
  rw [lexemes, toList_render]
  exact lexemes_of_words hne (forall_proper hw) 0

/-- What is rendered is not blank: there is a separator or a bracket, or a single atom, which is
not blank. -/
theorem not_isBlankText_render : Text.isBlankText (render atoms) = false := by
  suffices h : ∃ c ∈ (render atoms).toList, Text.isBlank c = false by
    obtain ⟨c, hc, hblank⟩ := h
    exact not_isBlankText hc hblank
  have hflat : (runs atoms).flatten = atoms := List.flatten_splitBy ..
  rw [toList_render]
  cases hruns : runs atoms with
  | nil =>
      rw [hruns] at hflat
      exact absurd hflat.symm hw.ne_nil
  | cons run rest =>
      rw [hruns] at hflat
      obtain _ | ⟨run', rest⟩ := rest
      · rw [List.map_singleton, List.map_singleton, List.intercalate_singleton]
        rw [List.flatten_singleton] at hflat
        obtain _ | ⟨a, _ | ⟨b, more⟩⟩ := run
        · exact absurd hflat.symm hw.ne_nil
        · obtain ⟨c, hc, hblank⟩ := hw.not_blank a hflat.symm
          exact ⟨c, by simpa [Word.text, wordOf] using hc, hblank⟩
        · rw [wordOf_cons_cons]
          refine ⟨(groupShape (lastParts (a :: b :: more))).1.opening, by simp [Word.text], ?_⟩
          cases (groupShape (lastParts (a :: b :: more))).1 <;> decide
      · refine ⟨';', ?_, by decide⟩
        simp [List.intercalate_cons_cons]

end

/-! ## Reading the text again -/

/-- An error in a group is reported, and nothing is read. -/
theorem expand_of_readGroup_error {o : Options} {raw : String} {pos : Nat} {d : Delimiter}
    {content : List Char} {f : Finding} (hblank : Text.isBlankText raw = false)
    (hproper : (lexemes raw).all Lexeme.isProper = true)
    (hmem : .group pos d content ∈ lexemes raw)
    (hf : f ∈ (readGroup o.lookup raw o.limit d content pos).2) (herror : f.isError = true) :
    (expand o raw).value = none ∧
      f.problem.at_ (o.readSpan.slice f.start f.stop) ∈ (expand o raw).log := by
  have hfound :
      f ∈ (Reading.run o.lookup raw o.limit o.noSplice {} (lexemes raw)).findings.reverse :=
    List.mem_reverse.mpr (Reading.findings_readGroup_subset_run hproper hmem {} hf)
  have hread : read o raw =
      (none, (Reading.run o.lookup raw o.limit o.noSplice {} (lexemes raw)).findings.reverse) := by
    rw [read, readWith, hblank, if_neg Bool.false_ne_true]
    exact if_pos (List.any_eq_true.mpr ⟨f, hfound, herror⟩)
  rw [expand, Logged.value_bind, Logged.log_bind, parse, hread]
  exact ⟨rfl, List.mem_append_left _ (List.mem_map_of_mem hfound)⟩

theorem mem_foldedGroups {atoms : List Atom} {parts : List Part} : parts ∈ foldedGroups atoms ↔
    ∃ a b run, a :: b :: run ∈ runs atoms ∧ lastParts (a :: b :: run) = parts := by
  rw [foldedGroups, List.mem_map]
  constructor
  · rintro ⟨run, hrun, rfl⟩
    obtain ⟨hmem, hlength⟩ := List.mem_filter.mp hrun
    obtain _ | ⟨a, _ | ⟨b, run⟩⟩ := run
    · simp at hlength
    · simp at hlength
    · exact ⟨a, b, run, hmem, rfl⟩
  · rintro ⟨a, b, run, hrun, rfl⟩
    exact ⟨_, List.mem_filter.mpr ⟨hrun, by simp⟩, rfl⟩

section

variable {o : Options} {atoms : List Atom} (hw : AtomsWritable o.limit atoms)

include hw

section

variable (hnamed : ∀ parts ∈ foldedGroups atoms, ¬ LooksNamed parts)

include hnamed

theorem isSome_groupAt_render : ∀ w ∈ (runs atoms).map wordOf, ∀ g ∈ w.group, ∀ pos,
    (groupAt o.lookup (render atoms) o.limit pos g.1 g.2).isSome = true := by
  intro w hmem g hg pos
  obtain ⟨run, hrun, rfl⟩ := List.mem_map.mp hmem
  obtain _ | ⟨a, _ | ⟨b, run⟩⟩ := run
  · exact absurd rfl (List.ne_nil_of_mem_splitBy hrun)
  · cases hg
  · obtain ⟨hfold, -⟩ := foldable_of_mem_runs hw hrun
    obtain ⟨g', hg', -⟩ := hfold.exists_group
      (hnamed _ (mem_foldedGroups.mpr ⟨a, b, run, hrun, rfl⟩)) o.lookup (render atoms) pos
    cases hg
    rw [hg']
    rfl

/-- The word of a run is read as the atoms of the run. -/
theorem texts_of_readAs {run : List Atom} (hrun : run ∈ runs atoms) {s : Segment}
    (hs : (wordOf run).ReadAs (groupAt o.lookup (render atoms) o.limit) s.pieces) :
    s.texts = run.map (·.literal) := by
  generalize hpieces : s.pieces = pieces at hs
  obtain _ | ⟨a, _ | ⟨b, run⟩⟩ := run
  · exact absurd rfl (List.ne_nil_of_mem_splitBy hrun)
  · cases hs with
    | text hne => rw [texts_of_text hpieces, String.ofList_toList, List.map_singleton]
  · obtain ⟨hfold, -, hliterals⟩ := foldable_of_mem_runs hw hrun
    rw [wordOf_cons_cons] at hs
    cases hs with
    | @group _ _ pos g hg =>
        obtain ⟨g', hg', hitems⟩ := hfold.exists_group
          (hnamed _ (mem_foldedGroups.mpr ⟨a, b, run, hrun, rfl⟩)) o.lookup (render atoms) pos
        obtain rfl : g' = g := Option.some.inj (hg'.symm.trans hg)
        rw [texts_of_group hpieces, hliterals]
        have hmap := congrArg (List.map fun t =>
          String.ofList (runStem (a :: b :: run)) ++ t) hitems
        rwa [List.map_map, List.map_map] at hmap

/-- Unless a group looks like a reference, the text stands for the atoms it was made of. -/
theorem exists_expand_render (hsplice : o.noSplice = false) :
    ∃ y, (expand o (render atoms)).value = some y ∧ y.literals = atoms.map (·.literal) := by
  have hne : (runs atoms).map wordOf ≠ [] := by
    simpa [runs] using hw.ne_nil
  obtain ⟨segments, hassembled, hsegments⟩ := exists_assembled_words
    (render atoms).utf8ByteSize hne (forall_proper hw) (isSome_groupAt_render hw hnamed) 0 0
  have hread : (read o (render atoms)).1 = some ⟨render atoms, segments⟩ := by
    refine readWith_eq_some_iff.mpr ⟨not_isBlankText_render hw, rfl, ?_, ?_⟩
    · rw [hsplice]
      exact fun h => absurd h Bool.false_ne_true
    · rwa [lexemes_render hw]
  have htexts : segments.map Segment.texts = (runs atoms).map fun run => run.map (·.literal) := by
    refine eq_map_of_forall₂ ?_
    rw [List.forall₂_map_right_iff]
    refine List.Forall₂.imp (fun run s hs => texts_of_readAs hw hnamed hs.1 hs.2)
      ((List.forall₂_and_left _ _).mpr ⟨fun run hrun => hrun, ?_⟩)
    rwa [List.forall₂_map_left_iff] at hsegments
  have hliterals : (productFrom 0 segments).map (·.literal) = atoms.map (·.literal) := by
    rw [map_literal_productFrom, List.flatMap_def, htexts, ← List.map_flatten, runs,
      List.flatten_splitBy]
  -- there are as many atoms as before, so the limit that held for them holds again
  have hsize : totalSize segments ≤ o.limit := by
    have hlength := congrArg List.length hliterals
    rw [List.length_map, List.length_map, length_productFrom] at hlength
    exact hlength ▸ hw.length_le
  have hexpand := expandSegments_eq_product segments (fun s hs g hg =>
    (meant_of_read hread s hs g hg).items_ne_nil) o.limit 0
  rw [if_pos hsize] at hexpand
  exact ⟨_, expand_eq_some_iff.mpr ⟨_, _, hread, hexpand, hliterals ▸ hw.nodup, rfl⟩, hliterals⟩

end

/-- A group that looks like a reference is reported as one, and nothing is read. -/
theorem expand_render_of_looksNamed {parts : List Part} (hparts : parts ∈ foldedGroups atoms)
    (hnamed : LooksNamed parts) : (expand o (render atoms)).value = none ∧ ∃ name place,
      ",".intercalate (parts.map Part.text) = "@" ++ name ∧
      (Problem.invalidReference name).at_ place ∈ (expand o (render atoms)).log := by
  obtain ⟨a, b, run, hrun, hlast⟩ := mem_foldedGroups.mp hparts
  have hfold := (foldable_of_mem_runs hw hrun).1
  have hgroup : groupShape parts ∈ (wordOf (a :: b :: run)).group := by
    rw [wordOf_cons_cons, hlast]
    rfl
  rw [hlast] at hfold
  obtain ⟨name, hname, hreport⟩ := hfold.readGroup_of_at hnamed
  obtain ⟨pos, hpos⟩ := mem_lexemesOf (List.mem_map_of_mem hrun) hgroup 0
  obtain ⟨stop, hstop⟩ := hreport o.lookup (render atoms) pos
  have hfound : ⟨.invalidReference name, pos, stop⟩ ∈ (readGroup o.lookup (render atoms) o.limit
      (groupShape parts).1 (groupShape parts).2 pos).2 := by
    rw [hstop]
    exact List.mem_singleton_self _
  have hproper := isProper_lexemesOf ((runs atoms).map wordOf) 0
  rw [← lexemes_render hw] at hpos hproper
  obtain ⟨hnone, hlog⟩ :=
    expand_of_readGroup_error (not_isBlankText_render hw) hproper hpos hfound rfl
  exact ⟨hnone, name, _, hname, hlog⟩

end

/-- What an expression stands for, rendered and read again under the same limit, stands for the
same texts in the same order, if and only if none of the groups that the atoms are folded into
starts with `@`.  Such a group is taken for a reference to a name that cannot be one, and the
text is refused. -/
theorem expand_render {o : Options} {raw : String} {x : Expansion}
    (h : (expand o raw).value = some x) (span : Span) :
    let again := expand { maxAtoms := o.maxAtoms, span := span } (render x.atoms)
    renderRuns x.atoms = (runs x.atoms).map renderRun ∧
    ((∃ y, again.value = some y ∧ y.literals = x.literals) ↔
      ∀ parts ∈ foldedGroups x.atoms, ¬ LooksNamed parts) ∧
    ∀ parts ∈ foldedGroups x.atoms, LooksNamed parts → again.value = none ∧ ∃ name place,
      ",".intercalate (parts.map Part.text) = "@" ++ name ∧
      (Problem.invalidReference name).at_ place ∈ again.log := by
  intro again
  have hwritable := atomsWritable_of_expand h
  have hw : AtomsWritable ({ maxAtoms := o.maxAtoms, span := span } : Options).limit x.atoms :=
    hwritable
  have hrefused : ∀ parts ∈ foldedGroups x.atoms, LooksNamed parts → _ :=
    fun parts => expand_render_of_looksNamed hw
  refine ⟨renderRuns_eq_map x.atoms,
    ⟨?_, fun hnamed => exists_expand_render hw hnamed rfl⟩, hrefused⟩
  rintro ⟨y, hy, -⟩ parts hparts hnamed
  cases hy.symm.trans (hrefused parts hparts hnamed).1

/-- Atoms of two groups, and values that look like a reference once the blank before them is
gone. -/
theorem expand_render_enumerations :
    (∃ x ∈ (expand {} "<p,n>[1:0]").value, render x.atoms = "p[1:0];n[1:0]" ∧
      ∃ y ∈ (expand {} (render x.atoms)).value, y.literals = x.literals) ∧
    ∃ x ∈ (expand {} "d< @b,c>").value, render x.atoms = "d<@b,c>" ∧
      (expand {} (render x.atoms)).value = none := by
  have hplain : ∃ x ∈ (expand {} "<p,n>[1:0]").value, render x.atoms = "p[1:0];n[1:0]" ∧
      ∀ parts ∈ foldedGroups x.atoms, ¬ LooksNamed parts := by decide +kernel
  have hnamed : ∃ x ∈ (expand {} "d< @b,c>").value, render x.atoms = "d<@b,c>" ∧
      ∃ parts ∈ foldedGroups x.atoms, LooksNamed parts := by decide +kernel
  obtain ⟨x, hx, hrender, hgroups⟩ := hplain
  obtain ⟨x', hx', hrender', parts, hparts, hat⟩ := hnamed
  exact ⟨⟨x, hx, hrender, (expand_render hx ⟨0, 0, 0⟩).2.1.mpr hgroups⟩,
    x', hx', hrender', ((expand_render hx' ⟨0, 0, 0⟩).2.2 parts hparts hat).1⟩

end Netlist.Pattern
