import Netlist.Proofs.Pattern.Assembly
import Netlist.Proofs.Text.Bytes

/-!
# The grammar of expressions

An expression is segments with separators between them, a segment is pieces one after the
other, and a piece is a run of plain characters or the text of a group (`IsExpression`).
Exactly these texts are accepted, unless they are blank.  The pieces of an accepted
expression tile its text: no byte of it belongs to two of them or, the separators apart, to
none (`parse_accepts_grammar`).
-/

namespace Netlist.Pattern

open String (utf8Len utf8Len_append)

/-! ## The grammar -/

section Grammar

variable (limit : Nat) (names : String → GroupKind → List Part → Prop)

/-- A run of plain characters or the text of a group. -/
def IsPiece (cs : List Char) : Prop :=
  (cs ≠ [] ∧ Plain cs) ∨ ∃ kind items axis, GroupText limit names cs kind items axis

/-- One or more pieces. -/
def IsSegment (cs : List Char) : Prop :=
  ∃ pieces : List (List Char), pieces ≠ [] ∧ (∀ p ∈ pieces, IsPiece limit names p) ∧
    pieces.flatten = cs

/-- One or more segments with separators between them, but only one if they may not be
spliced. -/
def IsExpression (noSplice : Bool) (cs : List Char) : Prop :=
  ∃ segments : List (List Char), segments ≠ [] ∧ (noSplice = true → segments.length = 1) ∧
    (∀ s ∈ segments, IsSegment limit names s) ∧ [';'].intercalate segments = cs

end Grammar

section

variable {limit : Nat} {names : String → GroupKind → List Part → Prop}
  {lookup : String → NamedPattern} {raw : String}

variable {read : List Char} {segments : List Segment} {stop start : Nat} {ls : List Lexeme}

theorem Assembled.segments_ne_nil {group : Nat → Delimiter → List Char → Option Group}
    {pieces : List Piece} (h : Assembled group stop start pieces ls segments) : segments ≠ [] := by
  induction h with
  | finish _ => simp
  | text _ ih => exact ih
  | group _ _ ih => exact ih
  | separator _ _ _ => simp

/-! ## What is accepted is in the grammar -/

/-- Assembled lexemes spell segments.  `done` holds the texts of the pieces that the first
segment has already. -/
theorem isSegment_of_assembled (hnames : Explains names lookup) {pieces : List Piece}
    (h : Assembled (groupAt lookup raw limit) stop start pieces ls segments) :
    ∀ (done : List (List Char)) {pos : Nat} {cs : List Char}, Lexed pos cs ls →
      (∀ p ∈ done, IsPiece limit names p) → (pieces ≠ [] → done ≠ []) →
      ∃ texts, texts.length = segments.length ∧ (∀ s ∈ texts, IsSegment limit names s) ∧
        [';'].intercalate texts = done.flatten ++ cs := by
  induction h with
  | finish hne =>
      intro done pos cs hlexed hdone hpieces
      cases hlexed
      refine ⟨[done.flatten], rfl, ?_, by simp⟩
      intro s hs
      rw [List.mem_singleton] at hs
      exact ⟨done, hpieces hne, hdone, hs.symm⟩
  | @text start pos pieces chars ls segments _ ih =>
      intro done pos' cs hlexed hdone _
      cases hlexed with
      | @text _ _ rest _ hne hplain hrest =>
          have hdone' : ∀ p ∈ done ++ [chars], IsPiece limit names p := by
            intro p hp
            rcases List.mem_append.mp hp with hp | hp
            · exact hdone p hp
            · rw [List.mem_singleton] at hp
              exact hp ▸ .inl ⟨hne, hplain⟩
          obtain ⟨texts, hlength, htexts, hjoin⟩ := ih _ hrest hdone' (by simp)
          exact ⟨texts, hlength, htexts, by rw [hjoin]; simp⟩
  | @group start pos pieces d content g ls segments hg _ ih =>
      intro done pos' cs hlexed hdone _
      cases hlexed with
      | @group _ _ _ rest _ hplain hrest =>
          have hgroup := (readGroup_sound hnames hplain hg).1
          have hdone' : ∀ p ∈ done ++ [d.opening :: (content ++ [d.closing])],
              IsPiece limit names p := by
            intro p hp
            rcases List.mem_append.mp hp with hp | hp
            · exact hdone p hp
            · rw [List.mem_singleton] at hp
              exact hp ▸ .inr ⟨_, _, _, hgroup⟩
          obtain ⟨texts, hlength, htexts, hjoin⟩ := ih _ hrest hdone' (by simp)
          exact ⟨texts, hlength, htexts, by rw [hjoin]; simp⟩
  | @separator start pos pieces ls segments hne h ih =>
      intro done pos' cs hlexed hdone hpieces
      cases hlexed with
      | @separator _ rest _ hrest =>
          obtain ⟨texts, hlength, htexts, hjoin⟩ := ih [] hrest (by simp) (by simp)
          have htexts_ne : texts ≠ [] := by
            rw [← List.length_pos_iff, hlength]
            exact List.length_pos_iff.mpr h.segments_ne_nil
          refine ⟨done.flatten :: texts, by simp [hlength], ?_, ?_⟩
          · intro s hs
            rcases List.mem_cons.mp hs with rfl | hs
            · exact ⟨done, hpieces hne, hdone, rfl⟩
            · exact htexts s hs
          · rw [List.intercalate_cons_of_ne_nil htexts_ne, hjoin]
            simp

/-! ## What is in the grammar is accepted -/

/-- The pieces of a segment with the text that was read after them. -/
def withText (read : List Char) (pieces : List Piece) : List Piece :=
  if read.isEmpty then pieces else .text (String.ofList read.reverse) :: pieces

theorem withText_ne_nil {pieces : List Piece} (h : read ≠ [] ∨ pieces ≠ []) :
    withText read pieces ≠ [] := by
  cases read with
  | nil => exact h.resolve_left (by simp)
  | cons c read => exact List.cons_ne_nil _ _

theorem Assembled.ofText {group : Nat → Delimiter → List Char → Option Group} {pieces : List Piece}
    (h : Assembled group stop start (withText read pieces) ls segments) (pos : Nat) :
    Assembled group stop start pieces (Lexeme.ofText pos read ++ ls) segments := by
  cases read with
  | nil => exact h
  | cons c read => exact .text h

/-- From any offset and after any plain text, the scan of the characters makes some number of
segments, if the first of them has a piece or text already. -/
def Completes (group : Nat → Delimiter → List Char → Option Group) (stop count : Nat)
    (cs : List Char) : Prop :=
  ∀ (from_ pos start : Nat) (read : List Char) (pieces : List Piece), Plain read →
    read ≠ [] ∨ pieces ≠ [] → ∃ segments,
      Assembled group stop start pieces (Lexeme.scan (.outside from_ read) pos cs) segments ∧
      segments.length = count

theorem completes_nil (group : Nat → Delimiter → List Char → Option Group) (stop : Nat) :
    Completes group stop 1 [] := by
  intro from_ pos start read pieces _ hne
  have hfinish : Assembled group stop start (withText read pieces) []
      [⟨(withText read pieces).reverse, start, stop⟩] := .finish (withText_ne_nil hne)
  have htext := hfinish.ofText from_
  rw [List.append_nil] at htext
  exact ⟨_, htext, rfl⟩

/-- A piece in front changes nothing, and makes that the segment has one. -/
theorem Completes.piece (hnames : Explains names lookup) {stop count : Nat} {cs p : List Char}
    (h : Completes (groupAt lookup raw limit) stop count cs)
    (hp : IsPiece limit names p) (from_ pos start : Nat) (pieces : List Piece)
    (hread : Plain read) :
    ∃ segments, Assembled (groupAt lookup raw limit) stop
        start pieces (Lexeme.scan (.outside from_ read) pos (p ++ cs)) segments ∧
      segments.length = count := by
  rcases hp with ⟨hne, hplain⟩ | ⟨kind, items, axis, hgroup⟩
  · rw [scan_plain hplain]
    refine h from_ _ start _ pieces (hplain.reverse.append hread) (.inl ?_)
    simpa using fun hnil => absurd hnil hne
  · obtain ⟨d, content, rfl, hplain, hread'⟩ := readGroup_complete hnames hgroup
    obtain ⟨g, hg, _⟩ := hread' raw pos
    have hscan := scan_group hplain from_ pos d read cs
    obtain ⟨segments, hassembled, hcount⟩ :=
      h (pos + utf8Len content + 2) (pos + utf8Len content + 2) start []
        (.group g :: withText read pieces) plain_nil (.inr (List.cons_ne_nil _ _))
    refine ⟨segments, ?_, hcount⟩
    rw [List.cons_append, List.append_assoc, List.singleton_append, hscan]
    exact Assembled.ofText (.group hg hassembled) from_

theorem Completes.pieces (hnames : Explains names lookup) {stop count : Nat} {cs : List Char}
    (h : Completes (groupAt lookup raw limit) stop count cs) :
    ∀ ps : List (List Char), (∀ p ∈ ps, IsPiece limit names p) →
      Completes (groupAt lookup raw limit) stop count
        (ps.flatten ++ cs)
  | [], _ => h
  | p :: ps, hps => by
      have hrest := Completes.pieces hnames h ps fun q hq => hps q (List.mem_cons_of_mem _ hq)
      intro from_ pos start read pieces hread _
      rw [List.flatten_cons, List.append_assoc]
      exact hrest.piece hnames (hps p (List.mem_cons_self ..)) from_ pos start pieces hread

/-- A segment needs no piece that was there before it. -/
theorem Completes.segment (hnames : Explains names lookup) {stop count : Nat} {cs s : List Char}
    (h : Completes (groupAt lookup raw limit) stop count cs)
    (hs : IsSegment limit names s) (from_ pos start : Nat) (pieces : List Piece)
    (hread : Plain read) :
    ∃ segments, Assembled (groupAt lookup raw limit) stop
        start pieces (Lexeme.scan (.outside from_ read) pos (s ++ cs)) segments ∧
      segments.length = count := by
  obtain ⟨ps, hne, hps, rfl⟩ := hs
  cases ps with
  | nil => exact absurd rfl hne
  | cons p ps =>
      have hrest := h.pieces hnames ps fun q hq => hps q (List.mem_cons_of_mem _ hq)
      rw [List.flatten_cons, List.append_assoc]
      exact hrest.piece hnames (hps p (List.mem_cons_self ..)) from_ pos start pieces hread

theorem assembled_of_segments (hnames : Explains names lookup) (raw : String) (stop : Nat) :
    ∀ texts : List (List Char), texts ≠ [] → (∀ s ∈ texts, IsSegment limit names s) →
      ∀ (from_ pos start : Nat) (read : List Char) (pieces : List Piece), Plain read →
      ∃ segments, Assembled (groupAt lookup raw limit) stop
          start pieces (Lexeme.scan (.outside from_ read) pos ([';'].intercalate texts)) segments ∧
        segments.length = texts.length
  | [], hne, _ => absurd rfl hne
  | [s], _, hs => by
      intro from_ pos start read pieces hread
      have hsegment := (completes_nil (groupAt lookup raw limit) stop).segment hnames
        (hs s (List.mem_cons_self ..)) from_ pos
        start pieces hread
      rw [List.append_nil] at hsegment
      rw [List.intercalate_singleton]
      exact hsegment
  | s :: s' :: texts, _, hs => by
      intro from_ pos start read pieces hread
      have ih := assembled_of_segments hnames raw stop (s' :: texts) (List.cons_ne_nil _ _)
        fun t ht => hs t (List.mem_cons_of_mem _ ht)
      -- the separator ends a segment and the next one starts afresh
      have hseparator : Completes
          (groupAt lookup raw limit) stop
          (s' :: texts).length.succ (';' :: [';'].intercalate (s' :: texts)) := by
        intro from_ pos start read pieces _ hne
        obtain ⟨segments, hassembled, hcount⟩ := ih (pos + 1) (pos + 1) (pos + 1) [] [] plain_nil
        rw [scan_separator]
        exact ⟨_, Assembled.ofText (.separator (withText_ne_nil hne) hassembled) from_,
          by rw [List.length_cons, hcount]⟩
      have hsegment := hseparator.segment hnames (hs s (List.mem_cons_self ..)) from_ pos start
        pieces hread
      rwa [List.intercalate_cons_cons, List.append_assoc]

/-- A text that is not blank is accepted exactly if it is in the grammar. -/
theorem isSome_readWith_iff (hnames : Explains names lookup) {noSplice : Bool} :
    (readWith lookup limit noSplice raw).1.isSome = true ↔
      Text.isBlankText raw = false ∧ IsExpression limit names noSplice raw.toList := by
  rw [Option.isSome_iff_exists]
  constructor
  · rintro ⟨e, he⟩
    obtain ⟨hblank, _, hcount, hassembled⟩ := readWith_eq_some_iff.mp he
    have hlexed := lexed_lexemes hassembled.isProper
    obtain ⟨texts, hlength, htexts, hjoin⟩ :=
      isSegment_of_assembled hnames hassembled [] hlexed (by simp) (by simp)
    have hpos : 0 < texts.length := by
      rw [hlength]
      exact List.length_pos_iff.mpr hassembled.segments_ne_nil
    refine ⟨hblank, texts, List.length_pos_iff.mp hpos, fun hno => ?_, htexts, hjoin⟩
    have := hcount hno
    omega
  · rintro ⟨hblank, texts, hne, hcount, htexts, hjoin⟩
    obtain ⟨segments, hassembled, hlength⟩ :=
      assembled_of_segments hnames raw raw.utf8ByteSize texts hne htexts 0 0 0 [] [] plain_nil
    rw [hjoin] at hassembled
    refine ⟨⟨raw, segments⟩, readWith_eq_some_iff.mpr ⟨hblank, rfl, fun hno => ?_, hassembled⟩⟩
    rw [hlength, hcount hno]

end

/-! ## Tiles -/

/-- The bytes of a text from an offset up to another. -/
def byteSlice (raw : String) (start stop : Nat) : Bytes :=
  ((Bytes.ofString raw).drop start).take (stop - start)

theorem byteSlice_append (raw : String) {a b c : Nat} (hab : a ≤ b) (hbc : b ≤ c) :
    byteSlice raw a b ++ byteSlice raw b c = byteSlice raw a c := by
  have hc : c - a = b - a + (c - b) := by omega
  have hb : (Bytes.ofString raw).drop b = ((Bytes.ofString raw).drop a).drop (b - a) := by
    rw [List.drop_drop, Nat.add_sub_cancel' hab]
  rw [byteSlice, byteSlice, byteSlice, hc, hb, ← List.take_add]

theorem length_ofList (cs : List Char) :
    (Bytes.ofString (String.ofList cs)).length = utf8Len cs := by
  rw [Bytes.ofString_eq, String.toList_ofList]
  induction cs with
  | nil => rfl
  | cons c cs ih =>
      rw [List.flatMap_cons, List.length_append, ih, String.length_utf8EncodeChar]
      simp [Nat.add_comm]

/-- What stands between two parts of a text is the slice between their offsets. -/
theorem byteSlice_eq {raw : String} {before cs after : List Char}
    (h : raw.toList = before ++ (cs ++ after)) :
    byteSlice raw (utf8Len before) (utf8Len before + utf8Len cs) =
      Bytes.ofString (String.ofList cs) := by
  have hraw : raw = String.ofList (before ++ (cs ++ after)) := by rw [← h, String.ofList_toList]
  rw [byteSlice, hraw, String.ofList_append, String.ofList_append, Bytes.ofString_append,
    Bytes.ofString_append, ← length_ofList before,
    List.drop_left, Nat.add_sub_cancel_left, ← length_ofList cs, List.take_left]

section Tiles

variable (limit : Nat) (names : String → GroupKind → List Part → Prop) (raw : String)

/-- Pieces that stand one after the other from an offset up to another.  A text is its slice,
and the slice of a group is the text of that group. -/
inductive PiecesTile : Nat → Nat → List Piece → Prop
  | nil (pos : Nat) : PiecesTile pos pos []
  | text {pos stop : Nat} {t : String} {ps : List Piece} (hne : t ≠ "")
      (hslice : byteSlice raw pos (pos + t.utf8ByteSize) = Bytes.ofString t)
      (rest : PiecesTile (pos + t.utf8ByteSize) stop ps) : PiecesTile pos stop (.text t :: ps)
  | group {stop : Nat} {g : Group} {ps : List Piece} {cs : List Char} (hlt : g.start < g.stop)
      (hslice : byteSlice raw g.start g.stop = Bytes.ofString (String.ofList cs))
      (htext : GroupText limit names cs g.kind g.items g.axis) (rest : PiecesTile g.stop stop ps) :
      PiecesTile g.start stop (.group g :: ps)

/-- Segments that tile a text from an offset to its end, each with a piece, and with a separator
after each of them but the last. -/
inductive SegmentsTile : Nat → List Segment → Prop
  | last {s : Segment} (hne : s.pieces ≠ [])
      (hpieces : PiecesTile limit names raw s.start s.stop s.pieces)
      (hstop : s.stop = raw.utf8ByteSize) : SegmentsTile s.start [s]
  | cons {s : Segment} {segments : List Segment} (hne : s.pieces ≠ [])
      (hpieces : PiecesTile limit names raw s.start s.stop s.pieces)
      (hseparator : byteSlice raw s.stop (s.stop + 1) = Bytes.ofString ";")
      (rest : SegmentsTile (s.stop + 1) segments) : SegmentsTile s.start (s :: segments)

end Tiles

/-- The bytes of a piece: those of its text, or the slice of its group. -/
def Piece.bytes (raw : String) : Piece → Bytes
  | .text t => Bytes.ofString t
  | .group g => byteSlice raw g.start g.stop

/-- The slices of an expression joined again. -/
def Expression.joined (e : Expression) : Bytes :=
  (Bytes.ofString ";").intercalate (e.segments.map fun s => s.pieces.flatMap (Piece.bytes e.raw))

section

variable {limit : Nat} {names : String → GroupKind → List Part → Prop}
  {lookup : String → NamedPattern} {raw : String}

theorem PiecesTile.append {a b c : Nat} {ps qs : List Piece} (h : PiecesTile limit names raw a b ps)
    (h' : PiecesTile limit names raw b c qs) : PiecesTile limit names raw a c (ps ++ qs) := by
  induction h with
  | nil _ => exact h'
  | text hne hslice _ ih => exact .text hne hslice (ih h')
  | group hlt hslice htext _ ih => exact .group hlt hslice htext (ih h')

theorem PiecesTile.le {a b : Nat} {ps : List Piece} (h : PiecesTile limit names raw a b ps) :
    a ≤ b := by
  induction h with
  | nil _ => exact Nat.le_refl _
  | text _ _ _ ih => exact Nat.le_trans (Nat.le_add_right ..) ih
  | group hlt _ _ _ ih => exact Nat.le_trans (Nat.le_of_lt hlt) ih

/-- Pieces that tile a part of a text make up that part. -/
theorem PiecesTile.flatMap_bytes {a b : Nat} {ps : List Piece}
    (h : PiecesTile limit names raw a b ps) : ps.flatMap (Piece.bytes raw) = byteSlice raw a b := by
  induction h with
  | nil pos => simp [byteSlice]
  | @text pos stop t ps _ hslice rest ih =>
      rw [List.flatMap_cons, ih, Piece.bytes, ← hslice]
      exact byteSlice_append raw (Nat.le_add_right ..) rest.le
  | @group stop g ps cs hlt _ _ rest ih =>
      rw [List.flatMap_cons, ih, Piece.bytes]
      exact byteSlice_append raw (Nat.le_of_lt hlt) rest.le

theorem length_ofString (s : String) : (Bytes.ofString s).length = s.utf8ByteSize := by
  have h := length_ofList s.toList
  rwa [← String.utf8ByteSize_ofList, String.ofList_toList] at h

theorem byteSlice_append_drop (raw : String) {a b : Nat} (h : a ≤ b) :
    byteSlice raw a b ++ (Bytes.ofString raw).drop b = (Bytes.ofString raw).drop a := by
  have hb : (Bytes.ofString raw).drop b = ((Bytes.ofString raw).drop a).drop (b - a) := by
    rw [List.drop_drop, Nat.add_sub_cancel' h]
  rw [byteSlice, hb, List.take_append_drop]

variable {segments : List Segment}

theorem SegmentsTile.ne_nil {pos : Nat}
    (h : SegmentsTile limit names raw pos segments) : segments ≠ [] := by
  cases h <;> simp

/-- Segments that tile a text from an offset on make up the text from there on. -/
theorem SegmentsTile.joined {pos : Nat} (h : SegmentsTile limit names raw pos segments) :
    (Bytes.ofString ";").intercalate (segments.map fun s => s.pieces.flatMap (Piece.bytes raw)) =
      (Bytes.ofString raw).drop pos := by
  induction h with
  | @last s _ hpieces hstop =>
      have hend : (Bytes.ofString raw).drop s.stop = [] := by
        rw [hstop, ← length_ofString, List.drop_length]
      have hjoin := byteSlice_append_drop raw hpieces.le
      rw [hend, List.append_nil] at hjoin
      rw [List.map_singleton, List.intercalate_singleton, hpieces.flatMap_bytes, hjoin]
  | @cons s segments _ hpieces hseparator rest ih =>
      have hne : segments.map (fun s => s.pieces.flatMap (Piece.bytes raw)) ≠ [] := by
        simpa using rest.ne_nil
      rw [List.map_cons, List.intercalate_cons_of_ne_nil hne, ih, hpieces.flatMap_bytes,
        ← hseparator, List.append_assoc, byteSlice_append_drop raw (Nat.le_succ _),
        byteSlice_append_drop raw hpieces.le]

/-- Assembled lexemes make segments that tile the text.  `before` is what stands in front of
the lexemes. -/
theorem segmentsTile_of_assembled (hnames : Explains names lookup) {start : Nat}
    {pieces : List Piece} {ls : List Lexeme}
    (h : Assembled (groupAt lookup raw limit) raw.utf8ByteSize start pieces ls segments) :
    ∀ (before : List Char) {cs : List Char}, raw.toList = before ++ cs →
      Lexed (utf8Len before) cs ls →
      PiecesTile limit names raw start (utf8Len before) pieces.reverse →
      SegmentsTile limit names raw start segments := by
  induction h with
  | @finish start pieces hne =>
      intro before cs hraw hlexed htile
      cases hlexed
      have hsize : utf8Len before = raw.utf8ByteSize := by
        rw [← String.ofList_toList (s := raw), hraw, List.append_nil, String.utf8ByteSize_ofList]
      rw [hsize] at htile
      exact .last (s := ⟨pieces.reverse, start, raw.utf8ByteSize⟩) (by simpa using hne) htile rfl
  | @text start pos pieces chars ls segments _ ih =>
      intro before cs hraw hlexed htile
      cases hlexed with
      | @text _ _ rest _ hne hplain hrest =>
          have hslice := byteSlice_eq hraw
          rw [← String.utf8ByteSize_ofList chars] at hslice
          have hne' : String.ofList chars ≠ "" := by simpa using hne
          refine ih (before ++ chars) (by rw [hraw, List.append_assoc]) ?_ ?_
          · rwa [utf8Len_append]
          · rw [List.reverse_cons, utf8Len_append, ← String.utf8ByteSize_ofList chars]
            exact htile.append (.text hne' hslice (.nil _))
  | @group start pos pieces d content g ls segments hg _ ih =>
      intro before cs hraw hlexed htile
      cases hlexed with
      | @group _ _ _ rest _ hplain hrest =>
          obtain ⟨htext, hstart, hstop⟩ := readGroup_sound hnames hplain hg
          have hraw' :
              raw.toList = before ++ ((d.opening :: (content ++ [d.closing])) ++ rest) := by
            rw [hraw]
            simp
          have hslice := byteSlice_eq hraw'
          have hlength : utf8Len (before ++ d.opening :: (content ++ [d.closing])) = g.stop := by
            rw [utf8Len_append, utf8Len_brackets, hstop, Nat.add_assoc]
          have hlt : g.start < g.stop := by omega
          rw [← hstop] at hrest
          rw [← hlength] at hrest
          refine ih (before ++ d.opening :: (content ++ [d.closing])) ?_ hrest ?_
          · rw [hraw', List.append_assoc]
          · rw [← utf8Len_append, hlength, ← hstart] at hslice
            rw [List.reverse_cons, hlength]
            rw [← hstart] at htile
            exact htile.append (.group hlt hslice htext (.nil _))
  | @separator start pos pieces ls segments hne _ ih =>
      intro before cs hraw hlexed htile
      cases hlexed with
      | @separator _ rest _ hrest =>
          have hraw' : raw.toList = before ++ ([';'] ++ rest) := hraw
          have hlength : utf8Len (before ++ [';']) = utf8Len before + 1 := utf8Len_append ..
          have hslice := byteSlice_eq hraw'
          refine .cons (s := ⟨pieces.reverse, start, utf8Len before⟩) (by simpa using hne) htile
            hslice ?_
          refine ih (before ++ [';']) (by rw [hraw', List.append_assoc]) ?_ ?_
          · rwa [hlength]
          · rw [hlength]
            exact .nil _

/-- The pieces of an expression that was read tile its text. -/
theorem segmentsTile_of_readWith (hnames : Explains names lookup) {noSplice : Bool} {e : Expression}
    (h : (readWith lookup limit noSplice raw).1 = some e) :
    e.raw = raw ∧ SegmentsTile limit names raw 0 e.segments := by
  obtain ⟨_, hraw, _, hassembled⟩ := readWith_eq_some_iff.mp h
  exact ⟨hraw, segmentsTile_of_assembled hnames hassembled [] rfl
    (lexed_lexemes hassembled.isProper) (.nil 0)⟩

end

/-! ## Named patterns -/

variable {names : String → GroupKind → List Part → Prop} {raw : String} {limit : Nat}

theorem not_isBlankText {c : Char} (hc : c ∈ raw.toList)
    (hblank : Text.isBlank c = false) : Text.isBlankText raw = false := by
  rw [Text.isBlankText, List.all_eq_false]
  exact ⟨c, hc, by simp [hblank]⟩

/-- Without named patterns no name stands for anything. -/
theorem explains_unknown : Explains (fun _ _ _ => False) fun _ => .unknown := by
  intro name kind items
  simp

theorem PiecesTile.eq_of_nil {a b : Nat} (h : PiecesTile limit names raw a b []) : a = b := by
  cases h
  rfl

theorem PiecesTile.groupText
    {a b : Nat} {g : Group} (h : PiecesTile limit names raw a b [.group g]) :
    ∃ cs, byteSlice raw a b = Bytes.ofString (String.ofList cs) ∧
      GroupText limit names cs g.kind g.items g.axis := by
  cases h with
  | @group _ _ _ cs _ hslice htext rest =>
      rw [← rest.eq_of_nil]
      exact ⟨cs, hslice, htext⟩

/-- A single group that tiles a text has that text. -/
theorem SegmentsTile.groupText {s : Segment} {g : Group} (hs : s.pieces = [.group g])
    (h : SegmentsTile limit names raw 0 [s]) :
    GroupText limit names raw.toList g.kind g.items g.axis := by
  have hwhole := h.joined
  generalize hpos : 0 = pos at h
  cases h with
  | last _ hpieces hstop =>
      rw [List.map_singleton, List.intercalate_singleton, hpieces.flatMap_bytes,
        List.drop_zero] at hwhole
      rw [hs] at hpieces
      obtain ⟨cs, hslice, htext⟩ := hpieces.groupText
      rw [hwhole] at hslice
      rwa [Bytes.ofString_injective hslice, String.toList_ofList]
  | cons _ _ _ rest => exact absurd rfl rest.ne_nil

/-- A definition is a group if and only if its text, trimmed, is that of one. -/
theorem definitionGroup?_iff {definition : String} {kind : GroupKind} {items : List Part} :
    (∃ g, definitionGroup? limit definition = some g ∧ g.kind = kind ∧ g.items = items) ↔
      PlainGroup limit (Text.trim definition).toList kind items := by
  constructor
  · rintro ⟨g, h, rfl, rfl⟩
    rw [definitionGroup?] at h
    split at h
    · next raw g' start stop heq =>
      split at h
      · next haxis =>
        cases h
        obtain ⟨-, htile⟩ := segmentsTile_of_readWith explains_unknown heq
        have htext := htile.groupText rfl
        rw [Option.isNone_iff_eq_none.mp haxis] at htext
        exact htext.plainGroup
      · cases h
    · cases h
  · intro h
    obtain ⟨d, content, hcs, hplain, hread⟩ := readGroup_complete explains_unknown (.plain h)
    obtain ⟨g, hg, hkind, hitems, haxis⟩ := hread (Text.trim definition) 0
    have hlexemes : lexemes (Text.trim definition) = [.group 0 d content] := by
      rw [lexemes, hcs, scan_group hplain]
      rfl
    have hblank : Text.isBlankText (Text.trim definition) = false := by
      refine not_isBlankText (c := d.opening) (by simp [hcs]) ?_
      cases d <;> decide
    refine ⟨g, ?_, hkind, hitems⟩
    have hsome : (readWith (fun _ => .unknown) limit true (Text.trim definition)).1 =
        some ⟨Text.trim definition, [⟨[.group g], 0, (Text.trim definition).utf8ByteSize⟩]⟩ := by
      refine readWith_eq_some_iff.mpr ⟨hblank, rfl, fun _ => Nat.le_refl 1, ?_⟩
      rw [hlexemes]
      exact .group hg (.finish (List.cons_ne_nil _ _))
    rw [definitionGroup?, hsome]
    simp [haxis]

/-- What the name of a named pattern stands for: the group whose text its definition is. -/
def Options.Means (o : Options) (name : String) (kind : GroupKind) (items : List Part) : Prop :=
  ∃ definition, o.named.lookup name = some definition ∧
    PlainGroup o.limit (Text.trim definition).toList kind items

theorem lookup_eq_find? (named : List (String × String)) (name : String) :
    named.lookup name = (named.find? fun n => n.1 == name).map Prod.snd := by
  induction named with
  | nil => rfl
  | cons entry named ih =>
      rw [List.lookup_cons, List.find?_cons, BEq.comm, ih]
      cases entry.1 == name <;> rfl

theorem explains_lookup (o : Options) : Explains o.Means o.lookup := by
  intro name kind items
  rw [Options.Means, lookup_eq_find?, Options.lookup]
  cases o.named.find? fun n => n.1 == name with
  | none => simp
  | some entry =>
      simp only [Option.map_some, Option.some.injEq, exists_eq_left', ← definitionGroup?_iff]
      cases definitionGroup? o.limit entry.2 <;> simp

/-! ## Acceptance -/

/-- An expression is accepted if and only if it is not blank and in the grammar.  What was read
tiles its text, and its slices joined again are the text. -/
theorem parse_accepts_grammar (o : Options) (raw : String) :
    ((parse o raw).value.isSome = true ↔ (∃ c ∈ raw.toList, Text.isBlank c = false) ∧
      IsExpression o.limit o.Means o.noSplice raw.toList) ∧
    ∀ e ∈ (parse o raw).value, e.raw = raw ∧ SegmentsTile o.limit o.Means raw 0 e.segments ∧
      e.joined = Bytes.ofString raw := by
  have hparse : (parse o raw).value = (readWith o.lookup o.limit o.noSplice raw).1 := rfl
  have hblank : Text.isBlankText raw = false ↔ ∃ c ∈ raw.toList, Text.isBlank c = false := by
    simp [Text.isBlankText]
  rw [hparse]
  refine ⟨?_, fun e he => ?_⟩
  · rw [isSome_readWith_iff (explains_lookup o), hblank]
  · obtain ⟨hraw, htile⟩ := segmentsTile_of_readWith (explains_lookup o) he
    refine ⟨hraw, htile, ?_⟩
    rw [Expression.joined, hraw, htile.joined, List.drop_zero]

/-- Two segments with an enumeration, a range and a reference to a named pattern. -/
theorem parse_accepts_grammar_spliced :
    let o : Options := { named := [("lane", " <a, b> ")] }
    let raw := "d<p,n>[1:0];é<@lane>x"
    IsExpression o.limit o.Means o.noSplice raw.toList ∧
    ∃ e ∈ (parse o raw).value, SegmentsTile o.limit o.Means raw 0 e.segments ∧
      e.joined = Bytes.ofString raw := by
  intro o raw
  have hsome : (parse o raw).value.isSome = true := by decide +kernel
  obtain ⟨hiff, htile⟩ := parse_accepts_grammar o raw
  obtain ⟨e, he⟩ := Option.isSome_iff_exists.mp hsome
  exact ⟨(hiff.mp hsome).2, e, he, (htile e he).2⟩

end Netlist.Pattern
