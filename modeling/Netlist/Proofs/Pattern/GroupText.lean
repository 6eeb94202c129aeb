import Netlist.Proofs.Pattern.Lexing
import Netlist.Proofs.Pattern.Range
import Netlist.Proofs.Text.Split

/-!
# How groups are written

`PlainGroup` says which texts are an enumeration or a range within a limit, with the values
that they stand for, and `GroupText` adds references to named patterns.  Reading what stands
between two brackets gives a group exactly if the brackets and what is between them are
such a text (`readGroup_sound`, `readGroup_complete`), and otherwise an error is found
(`hasError_readGroup`).
-/

namespace Netlist

/-! ## Decimal literals -/

namespace Decimal

/-- Digits that spell a number. -/
structure IsNumeral (cs : List Char) (n : Nat) : Prop where
  ne_nil : cs ≠ []
  digits : ∀ c ∈ cs, isDigit c = true
  value : Nat.ofDigitChars 10 cs 0 = n

/-- Digits with an optional sign that denote a number of 64 bits. -/
inductive IsInt64Literal : List Char → Int → Prop
  | unsigned {cs : List Char} {n : Nat} (h : IsNumeral cs n) (hfits : n < 2 ^ 63) :
      IsInt64Literal cs n
  | plus {cs : List Char} {n : Nat} (h : IsNumeral cs n) (hfits : n < 2 ^ 63) :
      IsInt64Literal ('+' :: cs) n
  | minus {cs : List Char} {n : Nat} (h : IsNumeral cs n) (hfits : n ≤ 2 ^ 63) :
      IsInt64Literal ('-' :: cs) (-n)

theorem readNat?_eq_some_iff {cs : List Char} {n : Nat} :
    readNat? cs = some n ↔ IsNumeral cs n := by
  constructor
  · intro h
    rw [readNat?] at h
    split at h
    · next hdigits =>
      rw [Bool.and_eq_true, Bool.not_eq_true', List.all_eq_true] at hdigits
      exact ⟨by simpa using hdigits.1, hdigits.2, Option.some.inj h⟩
    · cases h
  · rintro ⟨hne, hdigits, rfl⟩
    rw [readNat?, if_pos]
    rw [Bool.and_eq_true, Bool.not_eq_true', List.all_eq_true]
    exact ⟨by simpa using hne, hdigits⟩

theorem IsNumeral.head {c : Char} {cs : List Char} {n : Nat} (h : IsNumeral (c :: cs) n) :
    c ≠ '-' ∧ c ≠ '+' := by
  have hc := h.digits c (List.mem_cons_self ..)
  constructor <;> rintro rfl <;> cases hc

theorem readInt?_of_isNumeral {cs : List Char} {n : Nat} (h : IsNumeral cs n) :
    readInt? cs = some (n : Int) := by
  have hread : (readNat? cs).map Int.ofNat = some (n : Int) := by
    rw [readNat?_eq_some_iff.mpr h]
    rfl
  rw [readInt?.eq_3]
  · exact hread
  · rintro cs' rfl
    exact h.head.1 rfl
  · rintro cs' rfl
    exact h.head.2 rfl

theorem readInt64?_eq_some_iff {cs : List Char} {n : Int} :
    readInt64? cs = some n ↔ IsInt64Literal cs n := by
  rw [readInt64?, Option.filter_eq_some_iff, fitsInt64, Bool.and_eq_true, decide_eq_true_iff,
    decide_eq_true_iff]
  constructor
  · rintro ⟨hread, hlow, hhigh⟩
    unfold readInt? at hread
    split at hread
    · obtain ⟨m, hm, rfl⟩ := Option.map_eq_some_iff.mp hread
      rw [Int.ofNat_eq_natCast] at hlow ⊢
      exact .minus (readNat?_eq_some_iff.mp hm) (by omega)
    · obtain ⟨m, hm, rfl⟩ := Option.map_eq_some_iff.mp hread
      rw [Int.ofNat_eq_natCast] at hhigh
      exact .plus (readNat?_eq_some_iff.mp hm) (by omega)
    · obtain ⟨m, hm, rfl⟩ := Option.map_eq_some_iff.mp hread
      rw [Int.ofNat_eq_natCast] at hhigh
      exact .unsigned (readNat?_eq_some_iff.mp hm) (by omega)
  · intro h
    cases h with
    | unsigned h hfits => exact ⟨readInt?_of_isNumeral h, by omega, by omega⟩
    | plus h hfits =>
        refine ⟨?_, by omega, by omega⟩
        rw [readInt?, readNat?_eq_some_iff.mpr h]
        rfl
    | minus h hfits =>
        refine ⟨?_, by omega, by omega⟩
        rw [readInt?, readNat?_eq_some_iff.mpr h]
        rfl

/-- Nothing but digits and signs stands in a literal. -/
theorem IsInt64Literal.isDigit_or_sign {cs : List Char} {n : Int} (h : IsInt64Literal cs n) :
    ∀ c ∈ cs, isDigit c = true ∨ c = '+' ∨ c = '-' := by
  intro c hc
  cases h with
  | unsigned h _ => exact .inl (h.digits c hc)
  | plus h _ =>
      rcases List.mem_cons.mp hc with rfl | hc
      · exact .inr (.inl rfl)
      · exact .inl (h.digits c hc)
  | minus h _ =>
      rcases List.mem_cons.mp hc with rfl | hc
      · exact .inr (.inr rfl)
      · exact .inl (h.digits c hc)

end Decimal

namespace Pattern

open String (utf8Len)

/-! ## Texts of groups -/

/-- The text of an enumeration or of a range within the limit, and the values of the group. -/
inductive PlainGroup (limit : Nat) : List Char → GroupKind → List Part → Prop
  | enumeration {content : List Char} (hplain : Plain content) (hname : content.head? ≠ some '@')
      (hitems : ∀ item ∈ content.splitOn ',', ∃ c ∈ item, Text.isBlank c = false) :
      PlainGroup limit ('<' :: (content ++ ['>'])) .enumeration
        ((content.splitOn ',').map fun item => .literal (String.ofList (Text.trimChars item)))
  | range {first second : List Char} {m n : Nat}
      (hfirst : Decimal.IsInt64Literal (Text.trimChars first) m)
      (hsecond : Decimal.IsInt64Literal (Text.trimChars second) n)
      (hlimit : ((m : Int) - n).natAbs < limit) :
      PlainGroup limit ('[' :: (first ++ ':' :: (second ++ [']']))) .range (rangeItems m n)

/-- The text of a group, its values and the named pattern that it refers to.  `names` says
what names stand for. -/
inductive GroupText (limit : Nat) (names : String → GroupKind → List Part → Prop) :
    List Char → GroupKind → List Part → Option String → Prop
  | plain {cs : List Char} {kind : GroupKind} {items : List Part}
      (h : PlainGroup limit cs kind items) :
      GroupText limit names cs kind items none
  | named {name : String} {kind : GroupKind} {items : List Part} (hname : isAxisName name = true)
      (h : names name kind items) :
      GroupText limit names ('<' :: '@' :: (name.toList ++ ['>'])) kind items (some name)

/-- Only a reference has an axis. -/
theorem GroupText.plainGroup {limit : Nat} {names : String → GroupKind → List Part → Prop}
    {cs : List Char} {kind : GroupKind} {items : List Part}
    (h : GroupText limit names cs kind items none) : PlainGroup limit cs kind items := by
  cases h with
  | plain h => exact h

/-! ## Enumerations -/

/-- An enumeration can be read if no item is blank. -/
theorem readEnumeration_of_items {content : List Char}
    (h : ∀ item ∈ content.splitOn ',', ∃ c ∈ item, Text.isBlank c = false) (raw : String)
    (start stop : Nat) :
    (readEnumeration raw content start stop).1 = some
      { kind := .enumeration
        items := (content.splitOn ',').map fun item =>
          .literal (String.ofList (Text.trimChars item))
        start := start
        stop := stop } := by
  have hitems : ((content.splitOn ',').map Text.trimChars).any List.isEmpty = false := by
    rw [List.any_eq_false]
    intro cs hcs hempty
    obtain ⟨item, hitem, rfl⟩ := List.mem_map.mp hcs
    obtain ⟨c, hc, hblank⟩ := h item hitem
    rw [Text.trimChars_eq_nil_iff.mp (List.isEmpty_iff.mp hempty) c hc] at hblank
    cases hblank
  have hcontent : content.all Text.isBlank = false := by
    rw [List.all_eq_false]
    obtain ⟨item, hitem⟩ := List.exists_mem_of_ne_nil _ (List.splitOn_ne_nil ',' content)
    obtain ⟨c, hc, hblank⟩ := h item hitem
    exact ⟨c, Text.subset_of_mem_splitOn hitem hc, by simp [hblank]⟩
  rw [readEnumeration, hcontent]
  simp [hitems]

/-- An enumeration that was read has no blank item. -/
theorem items_of_readEnumeration {raw : String} {content : List Char} {start stop : Nat} {g : Group}
    (h : (readEnumeration raw content start stop).1 = some g) :
    ∀ item ∈ content.splitOn ',', ∃ c ∈ item, Text.isBlank c = false := by
  rw [readEnumeration] at h
  split at h
  · cases h
  · dsimp only at h
    split at h
    · cases h
    · next hitems =>
      intro item hitem
      rw [Bool.not_eq_true, List.any_eq_false] at hitems
      have hne := hitems _ (List.mem_map_of_mem hitem)
      rw [List.isEmpty_iff, Text.trimChars_eq_nil_iff] at hne
      simpa using hne

theorem hasError_readEnumeration (raw : String) (content : List Char) (start stop : Nat) :
    (readEnumeration raw content start stop).2.any Finding.isError =
      (readEnumeration raw content start stop).1.isNone := by
  rw [readEnumeration]
  split
  · rfl
  · dsimp only
    split
    · rfl
    · -- a single item is found worth a warning, which is no error
      split <;> rfl

/-! ## Ranges -/

theorem readBounds?_eq_some_iff {first second : List Char} {m n : Nat} :
    readBounds? first second = some (m, n) ↔
      Decimal.IsInt64Literal (Text.trimChars first) m ∧
      Decimal.IsInt64Literal (Text.trimChars second) n := by
  rw [readBounds?]
  constructor
  · intro h
    split at h
    · next hi lo hfirst hsecond =>
      split at h
      · cases h
      · next hsign =>
        simp only [Bool.or_eq_true, decide_eq_true_eq, not_or, not_lt] at hsign
        cases h
        rw [Decimal.readInt64?_eq_some_iff] at hfirst hsecond
        rw [Int.toNat_of_nonneg hsign.1, Int.toNat_of_nonneg hsign.2]
        exact ⟨hfirst, hsecond⟩
    · cases h
  · rintro ⟨hfirst, hsecond⟩
    rw [Decimal.readInt64?_eq_some_iff.mpr hfirst, Decimal.readInt64?_eq_some_iff.mpr hsecond]
    simp

/-- Nothing with a meaning, and no colon, stands in a bound. -/
theorem plain_of_isInt64Literal {cs : List Char} {n : Int}
    (h : Decimal.IsInt64Literal (Text.trimChars cs) n) : Plain cs ∧ ':' ∉ cs := by
  have hchar : ∀ c ∈ cs, Text.isBlank c = true ∨ Decimal.isDigit c = true ∨ c = '+' ∨ c = '-' := by
    intro c hc
    rcases Text.isBlank_or_mem_trimChars hc with hblank | hmem
    · exact .inl hblank
    · exact .inr (h.isDigit_or_sign c hmem)
  constructor
  · intro c hc
    rw [isSpecial_eq_false_iff]
    refine ⟨?_, ?_, ?_, ?_, ?_⟩ <;> rintro rfl <;> exact absurd (hchar _ hc) (by decide)
  · intro hc
    exact absurd (hchar _ hc) (by decide)

section

variable {limit : Nat} {first second : List Char} {m n : Nat}
  (hfirst : Decimal.IsInt64Literal (Text.trimChars first) m)
  (hsecond : Decimal.IsInt64Literal (Text.trimChars second) n)
include hfirst hsecond

theorem readRange_eq_countRange (raw : String) (start stop : Nat) :
    readRange raw limit (first ++ ':' :: second) start stop =
      countRange limit (String.ofList (first ++ ':' :: second)) (.ofNat m) (.ofNat n)
        start stop := by
  have hcontent : (first ++ ':' :: second).all Text.isBlank = false := by
    rw [List.all_eq_false]
    exact ⟨':', by simp, by decide⟩
  rw [readRange, hcontent, Text.splitOn_pair (plain_of_isInt64Literal hfirst).2
    (plain_of_isInt64Literal hsecond).2]
  simp [readBounds?_eq_some_iff.mpr ⟨hfirst, hsecond⟩]

theorem readRange_of_bounds (hlimit : ((m : Int) - n).natAbs < limit) (raw : String)
    (start stop : Nat) : (readRange raw limit (first ++ ':' :: second) start stop).1 =
      some { kind := .range, items := rangeItems m n, start := start, stop := stop } := by
  obtain ⟨hm, hn⟩ := lt_of_readBounds? (readBounds?_eq_some_iff.mpr ⟨hfirst, hsecond⟩)
  rw [readRange_eq_countRange hfirst hsecond, countRange_eq hm hn, if_neg (Nat.not_lt.mpr hlimit)]

end

theorem bounds_of_readRange {raw : String} {limit : Nat} {content : List Char} {start stop : Nat}
    {g : Group} (h : (readRange raw limit content start stop).1 = some g) :
    ∃ first second m n, content = first ++ ':' :: second ∧
      Decimal.IsInt64Literal (Text.trimChars first) (m : Nat) ∧
      Decimal.IsInt64Literal (Text.trimChars second) (n : Nat) ∧
      ((m : Int) - n).natAbs < limit := by
  rw [readRange] at h
  split at h
  · cases h
  · split at h
    · next first second hsplit =>
      have hcontent : [':'].intercalate (content.splitOn ':') = content :=
        List.intercalate_splitOn ':'
      rw [hsplit, List.intercalate_cons_cons, List.intercalate_singleton, List.append_assoc]
        at hcontent
      split at h
      · cases h
      · next m n hbounds =>
        obtain ⟨hfirst, hsecond⟩ := readBounds?_eq_some_iff.mp hbounds
        obtain ⟨hm, hn⟩ := lt_of_readBounds? hbounds
        rw [countRange_eq hm hn] at h
        split at h
        · cases h
        · exact ⟨first, second, m, n, hcontent.symm, hfirst, hsecond, by omega⟩
    · cases h

theorem hasError_readRange (raw : String) (limit : Nat) (content : List Char) (start stop : Nat) :
    (readRange raw limit content start stop).2.any Finding.isError =
      (readRange raw limit content start stop).1.isNone := by
  rw [readRange]
  split
  · rfl
  · split
    · split
      · rfl
      · rw [countRange]
        split <;> rfl
    · rfl

/-- A range is refused exactly if it has more values than the limit, with their number in the
message.  Otherwise the values are counted from one bound to the other.  The operations on
words are exact either way. -/
theorem readRange_exact {first second : List Char} {hi lo : Nat}
    (hfirst : Decimal.IsInt64Literal (Text.trimChars first) hi)
    (hsecond : Decimal.IsInt64Literal (Text.trimChars second) lo) {o : Options}
    (hmax : o.maxAtoms < 2 ^ 63) (raw : String) (start stop : Nat) :
    let content := first ++ ':' :: second
    let count := ((hi : Int) - lo).natAbs + 1
    let problem := Problem.rangeTooLarge (String.ofList content) count o.limit
    let out := readRange raw o.limit content start stop
    (out.1 = none ↔ o.limit < count) ∧
      (o.limit < count → out = (none, [⟨problem, start, stop⟩])) ∧
      problem.message = "range [" ++ String.ofList content ++ "] yields " ++ Decimal.ofNat count ++
        " values, limit is " ++ Decimal.ofNat o.limit ∧
      (count ≤ o.limit → out = (some ⟨.range, rangeItems hi lo, none, start, stop⟩, [])) ∧
      (rangeItems hi lo).length = count ∧ Stretch.Exact (.ofNat hi) (.ofNat lo) ∧
      (count ≤ o.limit →
        ((Stretch.between (.ofNat hi) (.ofNat lo)).distance + 1).toInt = count) := by
  intro content count problem out
  obtain ⟨hhi, hlo⟩ := lt_of_readBounds? (readBounds?_eq_some_iff.mpr ⟨hfirst, hsecond⟩)
  have hout : out = if o.limit < count then (none, [⟨problem, start, stop⟩])
      else (some ⟨.range, rangeItems hi lo, none, start, stop⟩, []) :=
    (readRange_eq_countRange hfirst hsecond raw start stop).trans (countRange_eq hhi hlo ..)
  have hrefused (h : o.limit < count) : out = (none, [⟨problem, start, stop⟩]) := by
    rw [hout, if_pos h]
  have hread (h : count ≤ o.limit) :
      out = (some ⟨.range, rangeItems hi lo, none, start, stop⟩, []) := by
    rw [hout, if_neg (Nat.not_lt.mpr h)]
  refine ⟨⟨fun h => ?_, fun h => by rw [hrefused h]⟩, hrefused, rfl, hread, length_rangeItems hi lo,
    Stretch.exact hhi hlo, fun h => ?_⟩
  · by_contra hlimit
    rw [hread (Nat.not_lt.mp hlimit)] at h
    cases h
  · rw [Stretch.toInt_distance_add_one hhi hlo (Options.limit_lt hmax) h]
    rfl

/-- The greatest range has one value more than the greatest limit allows. -/
theorem readRange_exact_greatest :
    let digits := "9223372036854775807".toList
    let out := readRange "" (Options.limit { maxAtoms := 2 ^ 63 - 1 }) (digits ++ ':' :: ['0']) 0 0
    out.1 = none ∧ Stretch.Exact (.ofNat (2 ^ 63 - 1)) (.ofNat 0) := by
  intro digits out
  have hfirst : Decimal.IsInt64Literal (Text.trimChars digits) ((2 ^ 63 - 1 : Nat) : Int) :=
    Decimal.readInt64?_eq_some_iff.mp (by decide +kernel)
  have hsecond : Decimal.IsInt64Literal (Text.trimChars ['0']) ((0 : Nat) : Int) :=
    Decimal.readInt64?_eq_some_iff.mp (by decide +kernel)
  have h := readRange_exact hfirst hsecond (o := { maxAtoms := 2 ^ 63 - 1 }) (by decide) "" 0 0
  exact ⟨h.1.mpr (by decide), h.2.2.2.2.2.1⟩

/-! ## Any group -/

theorem isSpecial_of_isNameChar {c : Char}
    (h : (isNameStart c || Decimal.isDigit c) = true) : isSpecial c = false := by
  rw [isSpecial_eq_false_iff]
  refine ⟨?_, ?_, ?_, ?_, ?_⟩ <;> rintro rfl <;> exact absurd h (by decide)

theorem isNameChar_of_isAxisName {name : String} (h : isAxisName name = true) :
    ∀ c ∈ name.toList, (isNameStart c || Decimal.isDigit c) = true := by
  rw [isAxisName] at h
  split at h
  · cases h
  · next c cs hname =>
    rw [Bool.and_eq_true, List.all_eq_true] at h
    rw [hname, List.forall_mem_cons, h.1]
    exact ⟨Bool.true_or _, h.2⟩

theorem plain_of_isAxisName {name : String} (h : isAxisName name = true) : Plain name.toList :=
  fun c hc => isSpecial_of_isNameChar (isNameChar_of_isAxisName h c hc)

theorem hasError_readNamed (lookup : String → NamedPattern) (name : List Char) (start stop : Nat) :
    (readNamed lookup name start stop).2.any Finding.isError =
      (readNamed lookup name start stop).1.isNone := by
  rw [readNamed]
  split
  · rfl
  · split <;> rfl

/-- A group that cannot be read is an error, and one that can be read is none. -/
theorem hasError_readGroup (lookup : String → NamedPattern) (raw : String) (limit : Nat)
    (d : Delimiter) (content : List Char) (start : Nat) :
    (readGroup lookup raw limit d content start).2.any Finding.isError =
      (readGroup lookup raw limit d content start).1.isNone := by
  unfold readGroup
  split
  · exact hasError_readRange ..
  · exact hasError_readNamed ..
  · exact hasError_readEnumeration ..

section

variable {lookup : String → NamedPattern} {names : String → GroupKind → List Part → Prop}
    {limit : Nat}

/-- `names` says what the names stand for. -/
def Explains (names : String → GroupKind → List Part → Prop) (lookup : String → NamedPattern) :
    Prop :=
  ∀ name kind items, names name kind items ↔
    ∃ g, lookup name = .group g ∧ g.kind = kind ∧ g.items = items

/-- A group that was read has the text of a group. -/
theorem readGroup_sound (hnames : Explains names lookup) {raw : String} {d : Delimiter}
    {content : List Char} (hplain : Plain content) {start : Nat} {g : Group}
    (h : (readGroup lookup raw limit d content start).1 = some g) :
    GroupText limit names (d.opening :: (content ++ [d.closing])) g.kind g.items g.axis ∧
      g.start = start ∧ g.stop = start + utf8Len content + 2 := by
  rw [← String.utf8ByteSize_ofList]
  unfold readGroup at h
  dsimp only at h
  split at h
  · obtain ⟨first, second, m, n, rfl, hfirst, hsecond, hlimit⟩ := bounds_of_readRange h
    rw [readRange_of_bounds hfirst hsecond hlimit] at h
    cases h
    refine ⟨.plain ?_, rfl, rfl⟩
    rw [List.append_assoc]
    exact .range hfirst hsecond hlimit
  · next name =>
    rw [readNamed] at h
    split at h
    · cases h
    · next hname =>
      split at h
      · cases h
      · cases h
      · next g' hg' =>
        cases h
        have hmeans := (hnames _ _ _).mpr ⟨g', hg', rfl, rfl⟩
        have hgroup :
            GroupText limit names ('<' :: '@' :: ((String.ofList name).toList ++ ['>'])) _ _
            (some (String.ofList name)) := .named (by simpa using hname) hmeans
        rw [String.toList_ofList] at hgroup
        exact ⟨hgroup, rfl, rfl⟩
  · next hname =>
    have hitems := items_of_readEnumeration h
    rw [readEnumeration_of_items hitems] at h
    cases h
    refine ⟨.plain (.enumeration hplain ?_ hitems), rfl, rfl⟩
    intro hhead
    obtain ⟨rest, rfl⟩ := List.head?_eq_some_iff.mp hhead
    exact hname rest rfl

/-- Between angle brackets stands an enumeration, if no name is referred to. -/
theorem readGroup_angle {content : List Char} (h : content.head? ≠ some '@') (raw : String)
    (start : Nat) : readGroup lookup raw limit .angle content start =
      readEnumeration raw content start (start + (String.ofList content).utf8ByteSize + 2) := by
  unfold readGroup
  split
  · contradiction
  · exact absurd rfl h
  · rfl

/-- The text of a group can be read. -/
theorem readGroup_complete (hnames : Explains names lookup) {cs : List Char} {kind : GroupKind}
    {items : List Part} {axis : Option String} (h : GroupText limit names cs kind items axis) :
    ∃ d content, cs = d.opening :: (content ++ [d.closing]) ∧ Plain content ∧
      ∀ raw start, ∃ g, (readGroup lookup raw limit d content start).1 = some g ∧
        g.kind = kind ∧ g.items = items ∧ g.axis = axis := by
  cases h with
  | plain h =>
      cases h with
      | @enumeration content hplain hname hitems =>
          refine ⟨.angle, content, rfl, hplain, fun raw start => ?_⟩
          rw [readGroup_angle hname]
          exact ⟨_, readEnumeration_of_items hitems raw _ _, rfl, rfl, rfl⟩
      | @range first second m n hfirst hsecond hlimit =>
          refine ⟨.square, first ++ ':' :: second, ?_, ?_, fun raw start => ?_⟩
          · rw [List.append_assoc]
            rfl
          · exact (plain_of_isInt64Literal hfirst).1.append
              ((plain_of_isInt64Literal hsecond).1.cons (by decide))
          · exact ⟨_, readRange_of_bounds hfirst hsecond hlimit raw _ _, rfl, rfl, rfl⟩
  | @named name kind items hname hmeans =>
      obtain ⟨g, hg, rfl, rfl⟩ := (hnames _ _ _).mp hmeans
      refine ⟨.angle, '@' :: name.toList, rfl, (plain_of_isAxisName hname).cons (by decide),
        fun raw start => ?_⟩
      have hread : (readGroup lookup raw limit .angle ('@' :: name.toList) start).1 =
          some { g with
            axis := some name, start := start,
            stop := start + (String.ofList ('@' :: name.toList)).utf8ByteSize + 2 } := by
        rw [readGroup, readNamed]
        simp only [String.ofList_toList, hname, hg]
        rfl
      exact ⟨_, hread, rfl, rfl, rfl⟩

end

end Pattern

end Netlist
