import Netlist.MessagePack.Reader
import Netlist.MessagePack.Writer
import Netlist.Proofs.Text.Bytes

/-!
# Reading numbers and texts back

`Takes r bytes a` says that a reader takes just `bytes` from the front and gives `a`, whatever
follows them.  A text is read back if it has fewer than 2³² bytes: the head of a longer one does
not hold its length.
-/

namespace Netlist.MessagePack

/-! ## Readers and bytes -/

/-- The reader takes the bytes from the front and gives the value. -/
def Takes {α : Type} (r : Reader α) (bytes : Bytes) (a : α) : Prop :=
  ∀ rest, r (bytes ++ rest) = .ok (a, rest)

section Takes

variable {α β : Type} {bytes more : Bytes} {a : α} {b : β}

theorem takes_pure (a : α) : Takes (pure a) [] a := fun _ => rfl

/-- Two readers one after the other. -/
theorem Takes.bind {x : Reader α} {f : α → Reader β} (hx : Takes x bytes a)
    (hf : Takes (f a) more b) : Takes (x >>= f) (bytes ++ more) b := by
  intro rest
  change (x (bytes ++ more ++ rest)).bind (fun p => f p.1 p.2) = _
  rw [List.append_assoc, hx]
  exact hf rest

theorem Takes.map {x : Reader α} (hx : Takes x bytes a) (f : α → β) :
    Takes (do return f (← x)) bytes (f a) := by
  have h := hx.bind (f := fun a => pure (f a)) (takes_pure (f a))
  rwa [List.append_nil] at h

theorem takes_code (c : UInt8) : Takes Reader.code [c] c := fun _ => rfl

theorem Takes.code {f : UInt8 → Reader α} {c : UInt8} (h : Takes (f c) bytes a) :
    Takes (do f (← Reader.code)) (c :: bytes) a :=
  (takes_code c).bind h

theorem takes_take (bytes : Bytes) : Takes (Reader.take bytes.length) bytes bytes := by
  intro rest
  cases bytes with
  | nil => rfl
  | cons b bytes => simp [Reader.take]

end Takes

/-! ## Numbers -/

theorem length_bigEndian (count n : Nat) : (bigEndian count n).length = count := by
  rw [bigEndian]
  induction count with
  | zero => rfl
  | succ count ih => rw [Sha256.bigEndian, List.length_cons, ih]

/-- Bytes are the digits to base 256. -/
theorem foldl_bigEndian (n : Nat) : ∀ count acc : Nat,
    (bigEndian count n).foldl (fun acc b => acc * 256 + b.toNat) acc =
      acc * 256 ^ count + n % 256 ^ count
  | 0, acc => by simp [bigEndian, Sha256.bigEndian, Nat.mod_one]
  | count + 1, acc => by
      have ih := foldl_bigEndian n count
      have hbyte : (UInt8.ofNat (n / Nat.pow 256 count)).toNat = n / 256 ^ count % 256 := rfl
      unfold bigEndian at ih ⊢
      rw [Sha256.bigEndian, List.foldl_cons, ih, hbyte, Nat.pow_succ, Nat.mod_mul]
      ring

theorem takes_number {w n : Nat} (h : n < 256 ^ w) :
    Takes (Reader.number w) (bigEndian w n) n := by
  have htake := takes_take (bigEndian w n)
  rw [length_bigEndian] at htake
  have hmap := htake.map fun bytes => bytes.foldl (fun acc b => acc * 256 + b.toNat) 0
  rwa [foldl_bigEndian, Nat.zero_mul, Nat.zero_add, Nat.mod_eq_of_lt h] at hmap

variable {c : UInt8} {content : Bytes} {n : Int}

/-- A negative number is written as what is left of the range. -/
theorem takes_signed {w : Nat} (hw : 0 < w) (hneg : n < 0) (hlow : -(2 ^ (8 * w - 1) : Nat) ≤ n) :
    Takes (Reader.signed w) (bigEndian w (n % (Nat.pow 2 (8 * w) : Nat)).toNat) n := by
  have hpow : Nat.pow 2 (8 * w) = 2 * 2 ^ (8 * w - 1) := by
    rw [← Nat.pow_succ', Nat.succ_eq_add_one, Nat.sub_add_cancel (by omega)]
    rfl
  have hrange : 256 ^ w = Nat.pow 2 (8 * w) := by
    change _ = 2 ^ (8 * w)
    rw [Nat.pow_mul]
  have hmod : n % (Nat.pow 2 (8 * w) : Nat) = n + (Nat.pow 2 (8 * w) : Nat) := by
    rw [← Int.add_emod_right, Int.emod_eq_of_lt (by omega) (by omega)]
  rw [hmod]
  have hread := (takes_number (w := w) (n := (n + (Nat.pow 2 (8 * w) : Nat)).toNat)
    (by omega)).map fun v =>
      if v < Nat.pow 2 (8 * w - 1) then Int.ofNat v
      else Int.ofNat v - Int.ofNat (Nat.pow 2 (8 * w))
  have hhigh : ¬ (n + (Nat.pow 2 (8 * w) : Nat)).toNat < Nat.pow 2 (8 * w - 1) := by
    change ¬ _ < 2 ^ (8 * w - 1)
    omega
  have hback : Int.ofNat (n + (Nat.pow 2 (8 * w) : Nat)).toNat -
      Int.ofNat (Nat.pow 2 (8 * w)) = n := by
    rw [Int.ofNat_eq_natCast, Int.ofNat_eq_natCast]
    omega
  rwa [if_neg hhigh, hback] at hread

/-- Whether a code stands in front of an integer. -/
def IsIntCode (c : UInt8) : Prop := Reader.isSmallNumber c = true ∨ 0xCC ≤ c ∧ c ≤ 0xD3

theorem intOf_of_isSmallNumber (h : Reader.isSmallNumber c = true) (wanted : String) :
    Reader.intOf wanted c = pure (Reader.smallNumber c) := by
  have hnil : (c == 0xC0) = false := by
    rw [beq_eq_false_iff_ne]
    rintro rfl
    cases h
  rw [Reader.intOf, hnil, h]
  rfl

/-- The bytes of a natural number: a code and what the code announces. -/
theorem exists_nat_eq {n : Nat} (h : n < 2 ^ 63) :
    ∃ c bytes, nat n = c :: bytes ∧ IsIntCode c ∧
      ∀ wanted, Takes (Reader.intOf wanted c) bytes (n : Int) := by
  unfold nat uint8 uint16 uint32
  split
  · have hn : (UInt8.ofNat n).toNat = n := UInt8.toNat_ofNat_of_lt' (show _ < 256 by omega)
    have hle : UInt8.ofNat n ≤ 0x7F := by
      rw [UInt8.le_iff_toNat_le, hn]
      assumption
    have hsmall : Reader.isSmallNumber (UInt8.ofNat n) = true := by simp [Reader.isSmallNumber, hle]
    refine ⟨_, _, rfl, .inl hsmall, fun wanted => ?_⟩
    rw [intOf_of_isSmallNumber hsmall, Reader.smallNumber, if_pos hle, hn]
    exact takes_pure _
  split
  · exact ⟨_, _, rfl, .inr (by decide), fun _ => (takes_number (by omega)).map Int.ofNat⟩
  split
  · exact ⟨_, _, rfl, .inr (by decide), fun _ => (takes_number (by omega)).map Int.ofNat⟩
  split
  · exact ⟨_, _, rfl, .inr (by decide), fun _ => (takes_number (by omega)).map Int.ofNat⟩
  · refine ⟨_, _, rfl, .inr (by decide), fun _ => ?_⟩
    have hwrap : Decimal.wrap64 (Int.ofNat n) = n := by
      rw [Decimal.wrap64, Int.ofNat_eq_natCast, Int.bmod_eq_of_le (by omega) (by omega)]
    have hread := (takes_number (w := 8) (n := n) (by omega)).map fun n =>
      Decimal.wrap64 (Int.ofNat n)
    rw [hwrap] at hread
    exact hread

/-- The bytes of a 64-bit integer: a code and what the code announces. -/
theorem exists_int_eq (hlow : -2 ^ 63 ≤ n) (hhigh : n < 2 ^ 63) :
    ∃ c bytes, int n = c :: bytes ∧ IsIntCode c ∧
      ∀ wanted, Takes (Reader.intOf wanted c) bytes n := by
  unfold int
  dsimp only
  split
  · obtain ⟨c, bytes, heq, hcode, htakes⟩ := exists_nat_eq (n := n.toNat) (by omega)
    rw [Int.toNat_of_nonneg ‹_›] at htakes
    exact ⟨c, bytes, heq, hcode, htakes⟩
  split
  · have hmod : n % (Nat.pow 2 8 : Nat) = n + 256 := by
      change n % 256 = _
      omega
    have hc : (UInt8.ofNat (n + 256).toNat).toNat = (n + 256).toNat :=
      UInt8.toNat_ofNat_of_lt' (show _ < 256 by omega)
    have hgt : ¬ UInt8.ofNat (n + 256).toNat ≤ 0x7F := by
      rw [UInt8.le_iff_toNat_le, hc]
      change ¬ _ ≤ 127
      omega
    have hge : 0xE0 ≤ UInt8.ofNat (n + 256).toNat := by
      rw [UInt8.le_iff_toNat_le, hc]
      change 224 ≤ _
      omega
    have hsmall : Reader.isSmallNumber (UInt8.ofNat (n + 256).toNat) = true := by
      simp [Reader.isSmallNumber, hge]
    rw [hmod]
    refine ⟨_, _, rfl, .inl hsmall, fun wanted => ?_⟩
    rw [intOf_of_isSmallNumber hsmall, Reader.smallNumber, if_neg hgt, hc]
    convert takes_pure n using 2
    rw [Int.ofNat_eq_natCast]
    omega
  split
  · exact ⟨_, _, rfl, .inr (by decide), fun _ =>
      takes_signed (w := 1) (by decide) (by omega) (by omega)⟩
  split
  · exact ⟨_, _, rfl, .inr (by decide), fun _ =>
      takes_signed (w := 2) (by decide) (by omega) (by omega)⟩
  split
  · exact ⟨_, _, rfl, .inr (by decide), fun _ =>
      takes_signed (w := 4) (by decide) (by omega) (by omega)⟩
  · exact ⟨_, _, rfl, .inr (by decide), fun _ =>
      takes_signed (w := 8) (by decide) (by omega) (by omega)⟩

/-- Every 64-bit number is read back. -/
theorem takes_int (hlow : -2 ^ 63 ≤ n) (hhigh : n < 2 ^ 63) :
    Takes Reader.int (int n) n := by
  obtain ⟨c, bytes, heq, _, htakes⟩ := exists_int_eq hlow hhigh
  rw [heq]
  exact (htakes _).code

/-- A number whose width is fixed is read with the bits that are wanted. -/
theorem takes_uint {count bits n : Nat} (hbits : n < 2 ^ bits)
    (hread : Takes (Reader.intOf "uint64" c) (bigEndian count n) (n : Int)) :
    Takes (Reader.uint bits) (c :: bigEndian count n) n := by
  have h := hread.code.map fun n => (n % (Nat.pow 2 bits : Nat)).toNat
  have hmod : ((n : Int) % (Nat.pow 2 bits : Nat)).toNat = n := by
    rw [← Int.natCast_mod, Int.toNat_natCast]
    exact Nat.mod_eq_of_lt hbits
  rw [hmod] at h
  exact h

theorem takes_uint8 (n : UInt8) : Takes (Reader.uint 8) (uint8 n.toNat) n.toNat :=
  takes_uint n.toNat_lt ((takes_number n.toNat_lt).map Int.ofNat)

theorem takes_uint16 (n : UInt16) : Takes (Reader.uint 16) (uint16 n.toNat) n.toNat :=
  takes_uint n.toNat_lt ((takes_number n.toNat_lt).map Int.ofNat)

theorem takes_uint32 (n : UInt32) : Takes (Reader.uint 32) (uint32 n.toNat) n.toNat :=
  takes_uint n.toNat_lt ((takes_number n.toNat_lt).map Int.ofNat)

theorem takes_bool (b : Bool) : Takes Reader.bool (bool b) b := by
  cases b <;> exact fun _ => rfl

/-! ## Codes -/

/-- A code that holds a small number is in its range. -/
theorem ofNat_mem_codes (low high : Nat) {n : Nat} (h : low + n ≤ high) (hhigh : high < 256) :
    UInt8.ofNat low ≤ UInt8.ofNat (low + n) ∧ UInt8.ofNat (low + n) ≤ UInt8.ofNat high := by
  rw [UInt8.le_iff_toNat_le, UInt8.le_iff_toNat_le,
    UInt8.toNat_ofNat_of_lt' (show _ < 256 by omega),
    UInt8.toNat_ofNat_of_lt' (show _ < 256 by omega), UInt8.toNat_ofNat_of_lt' hhigh]
  omega

/-- A code below the one for nothing is another one. -/
theorem beq_nil_eq_false {c d : UInt8} (h : c ≤ d) (hd : d < 0xC0) : (c == 0xC0) = false := by
  rw [beq_eq_false_iff_ne]
  rintro rfl
  exact absurd (UInt8.lt_of_le_of_lt h hd) (by decide)

/-! ## Texts -/

/-- Whether a code stands in front of a text. -/
def IsTextCode (c : UInt8) : Prop := 0xA0 ≤ c ∧ c ≤ 0xBF ∨ 0xD9 ≤ c ∧ c ≤ 0xDB

theorem textLength_of_mem (h : 0xA0 ≤ c ∧ c ≤ 0xBF) :
    Reader.textLength c = pure (some (c.toNat - 0xA0)) := by
  simp only [Reader.textLength, beq_nil_eq_false h.2 (by decide), Bool.false_eq_true, if_false, h.1,
    h.2, decide_true, Bool.and_self, if_true]

theorem takes_binaryOf {b content : Bytes}
    (h : Takes (Reader.textLength c) b (some content.length)) :
    Takes (Reader.binaryOf c) (b ++ content) content :=
  h.bind (takes_take content)

/-- The bytes of a text: a code and what the code announces. -/
theorem exists_text_eq (h : content.length < 2 ^ 32) :
    ∃ c bytes, text content = c :: bytes ∧ IsTextCode c ∧
      Takes (Reader.binaryOf c) bytes content := by
  unfold text
  dsimp only
  split
  · have hcode : 0xA0 ≤ UInt8.ofNat (0xA0 + content.length) ∧
        UInt8.ofNat (0xA0 + content.length) ≤ 0xBF :=
      ofNat_mem_codes 0xA0 0xBF (by omega) (by decide)
    refine ⟨_, _, rfl, .inl hcode, takes_binaryOf (b := []) ?_⟩
    rw [textLength_of_mem hcode, UInt8.toNat_ofNat_of_lt' (show _ < 256 by omega),
      Nat.add_sub_cancel_left]
    exact takes_pure _
  split
  · exact ⟨_, _, rfl, .inr (by decide), takes_binaryOf ((takes_number (by omega)).map some)⟩
  split
  · exact ⟨_, _, rfl, .inr (by decide), takes_binaryOf ((takes_number (by omega)).map some)⟩
  · exact ⟨_, _, rfl, .inr (by decide), takes_binaryOf ((takes_number (by omega)).map some)⟩

/-- A text whose length has 32 bits is read back. -/
theorem takes_text (h : content.length < 2 ^ 32) :
    Takes Reader.binary (text content) content := by
  obtain ⟨c, bytes, heq, _, htakes⟩ := exists_text_eq h
  rw [heq]
  exact htakes.code

theorem takes_string {s : String} (h : (Bytes.ofString s).length < 2 ^ 32) :
    Takes Reader.string (string s) s := by
  have htext := (takes_text h).map Bytes.toText
  rw [Bytes.toText_ofString] at htext
  exact htext

theorem takes_binary (h : content.length < 2 ^ 32) :
    Takes Reader.binary (binary content) content := by
  unfold binary
  dsimp only
  split
  · exact Takes.code (f := Reader.binaryOf) (takes_binaryOf ((takes_number (by omega)).map some))
  split
  · exact Takes.code (f := Reader.binaryOf) (takes_binaryOf ((takes_number (by omega)).map some))
  · exact Takes.code (f := Reader.binaryOf) (takes_binaryOf ((takes_number (by omega)).map some))

/-! ## Values of any sort

The code in front of a value says of which sort it is.  What each code leads to is checked
for all codes of a sort at once. -/

theorem IsTextCode.cases : ∀ {c : UInt8}, IsTextCode c →
    Reader.isSmallNumber c = false ∧ (c ≤ 0x8F || c == 0xDE || c == 0xDF) = false ∧
    (c ≤ 0x9F || c == 0xDC || c == 0xDD) = false ∧
    (c ≤ 0xBF || (0xD9 ≤ c && c ≤ 0xDB) || (0xC4 ≤ c && c ≤ 0xC6)) = true ∧
    Reader.isContainer c = false := by
  unfold IsTextCode
  decide +kernel

theorem IsIntCode.cases : ∀ {c : UInt8}, IsIntCode c → Reader.isSmallNumber c = false →
    (c ≤ 0x8F || c == 0xDE || c == 0xDF) = false ∧ (c ≤ 0x9F || c == 0xDC || c == 0xDD) = false ∧
    (c ≤ 0xBF || (0xD9 ≤ c && c ≤ 0xDB) || (0xC4 ≤ c && c ≤ 0xC6)) = false ∧
    (c == 0xC0) = false ∧ (c == 0xC2 || c == 0xC3) = false ∧ (c == 0xCA) = false ∧
    (c == 0xCB) = false ∧ (0xCC ≤ c && c ≤ 0xD3) = true := by
  unfold IsIntCode
  decide +kernel

theorem IsIntCode.single : ∀ {c : UInt8}, IsIntCode c → Reader.isContainer c = false := by
  unfold IsIntCode
  decide +kernel

theorem takes_loose_text {bytes content : Bytes} (hc : IsTextCode c)
    (h : Takes (Reader.binaryOf c) bytes content) :
    Takes (Reader.loose 1) (c :: bytes) (.text content) := by
  obtain ⟨hsmall, hmap, hlist, htext, _⟩ := hc.cases
  rw [Reader.loose]
  refine Takes.code ?_
  rw [hsmall, hmap, hlist, htext]
  exact h.map Reader.Loose.text

theorem takes_loose_int {bytes : Bytes} (hc : IsIntCode c)
    (h : ∀ wanted, Takes (Reader.intOf wanted c) bytes n) :
    Takes (Reader.loose 1) (c :: bytes) (.int n) := by
  rw [Reader.loose]
  refine Takes.code ?_
  cases hsmall : Reader.isSmallNumber c with
  | true =>
      have hread := (h "int64").map Reader.Loose.int
      rw [intOf_of_isSmallNumber hsmall] at hread
      exact hread
  | false =>
      obtain ⟨hmap, hlist, htext, hnil, hbool, hfloat, hdouble, hint⟩ := hc.cases hsmall
      rw [hmap, hlist, htext, hnil, hbool, hfloat, hdouble, hint]
      exact (h "int64").map Reader.Loose.int

/-- A value that is no list and no map is not nested. -/
theorem Takes.depth {α : Type} {f : Nat → Reader α} {bytes : Bytes} {a : α}
    (hc : Reader.isContainer c = false) (h : Takes (f 1) (c :: bytes) a) :
    Takes (do f (← Reader.depth)) (c :: bytes) a := by
  intro rest
  change f (if ((some c).map Reader.isContainer).getD false then _ else 1) _ = _
  rw [Option.map_some, Option.getD_some, hc]
  exact h rest

end Netlist.MessagePack
