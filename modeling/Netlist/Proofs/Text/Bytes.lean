import Mathlib
import Netlist.Text.Bytes

/-!
# Texts as bytes

The bytes of a text are read back as the same text (`toText_ofString`), and a zero among them
comes from the character zero.  Different bytes have different hexadecimal texts.
-/

namespace Netlist.Bytes

/-! ## The bytes of a text -/

theorem get!_toByteArray {l : List UInt8} {i : Nat} (h : i < l.length) :
    l.toByteArray.get! i = l[i] := by
  have hi : i < l.toByteArray.data.size := by
    rw [← Array.length_toList, List.toList_data_toByteArray]
    exact h
  change l.toByteArray.data[i]! = _
  rw [getElem!_pos l.toByteArray.data i hi]
  simp [← Array.getElem_toList]

theorem toList_toByteArray (l : List UInt8) : l.toByteArray.toList = l := by
  have hloop : ∀ (n i : Nat) (r : List UInt8), i + n = l.length →
      ByteArray.toList.loop l.toByteArray i r = r.reverse ++ l.drop i := by
    intro n
    induction n with
    | zero =>
        intro i r hi
        rw [ByteArray.toList.loop, List.size_toByteArray, if_neg (by omega),
          List.drop_eq_nil_of_le (by omega), List.append_nil]
    | succ n ih =>
        intro i r hi
        rw [ByteArray.toList.loop, List.size_toByteArray, if_pos (by omega), ih _ _ (by omega),
          get!_toByteArray (by omega), List.reverse_cons, List.append_assoc, List.singleton_append,
          ← List.drop_eq_getElem_cons]
  exact hloop _ 0 [] (Nat.zero_add _)

theorem ofString_eq (s : String) : ofString s = s.toList.flatMap String.utf8EncodeChar := by
  conv_lhs => rw [← String.ofList_toList (s := s)]
  exact toList_toByteArray _

theorem ofString_append (s t : String) : ofString (s ++ t) = ofString s ++ ofString t := by
  rw [ofString_eq, ofString_eq, ofString_eq, String.toList_append, List.flatMap_append]

theorem isText_ofString (s : String) : (ofString s).isText = true := by
  have hbytes : ByteArray.mk (ofString s).toArray = s.toByteArray := by
    refine ByteArray.ext ?_
    conv_rhs => rw [← String.ofList_toList (s := s)]
    rw [ofString_eq, ← Array.toList_inj, List.toList_toArray]
    exact (List.toList_data_toByteArray).symm
  rw [isText, String.fromUTF8?, hbytes]
  simp [s.isValidUTF8]

/-! ## Characters -/

section HeadChar

variable {a b c d : Nat} (rest : Bytes)

theorem isContinuation_ofNat (h : 0x80 ≤ a ∧ a < 0xC0) : isContinuation (UInt8.ofNat a) = true := by
  rw [isContinuation, Bool.and_eq_true, decide_eq_true_iff, decide_eq_true_iff,
    UInt8.le_iff_toNat_le, UInt8.le_iff_toNat_le, UInt8.toNat_ofNat_of_lt' (show _ < 256 by omega)]
  exact ⟨h.1, Nat.le_of_lt_succ h.2⟩

theorem headChar?_one (h : a < 0x80) :
    headChar? (UInt8.ofNat a :: rest) = some (Char.ofNat a, 1) := by
  simp only [headChar?, UInt8.lt_iff_toNat_lt, UInt8.reduceToNat,
    UInt8.toNat_ofNat_of_lt' (show a < 256 by omega), h, if_true]

theorem headChar?_two (ha : 0xC2 ≤ a ∧ a < 0xE0) (hb : 0x80 ≤ b ∧ b < 0xC0) :
    headChar? (UInt8.ofNat a :: UInt8.ofNat b :: rest) =
      some (Char.ofNat ((a - 0xC0) * 64 + (b - 0x80)), 2) := by
  simp only [headChar?, UInt8.lt_iff_toNat_lt, UInt8.reduceToNat,
    UInt8.toNat_ofNat_of_lt' (show a < 256 by omega),
    UInt8.toNat_ofNat_of_lt' (show b < 256 by omega), isContinuation_ofNat hb,
    show ¬ a < 0x80 by omega, show ¬ a < 0xC2 by omega, ha.2, if_true, if_false]

theorem headChar?_three (ha : 0xE0 ≤ a ∧ a < 0xF0) (hb : 0x80 ≤ b ∧ b < 0xC0)
    (hc : 0x80 ≤ c ∧ c < 0xC0) {v : Nat}
    (hv : (a - 0xE0) * 4096 + (b - 0x80) * 64 + (c - 0x80) = v) (hlong : 0x800 ≤ v)
    (hscalar : v < 0xD800 ∨ 0xDFFF < v) :
    headChar? (UInt8.ofNat a :: UInt8.ofNat b :: UInt8.ofNat c :: rest) =
      some (Char.ofNat v, 3) := by
  have hsurrogate : (decide (0xD800 ≤ v) && decide (v ≤ 0xDFFF)) = false := by
    simp only [Bool.and_eq_false_iff, decide_eq_false_iff_not]
    omega
  simp only [headChar?, UInt8.lt_iff_toNat_lt, UInt8.reduceToNat,
    UInt8.toNat_ofNat_of_lt' (show a < 256 by omega),
    UInt8.toNat_ofNat_of_lt' (show b < 256 by omega),
    UInt8.toNat_ofNat_of_lt' (show c < 256 by omega), isContinuation_ofNat hb,
    isContinuation_ofNat hc, show ¬ a < 0x80 by omega,
    show ¬ a < 0xC2 by omega, show ¬ a < 0xE0 by omega, ha.2, if_true, if_false, hv, hlong,
    hsurrogate, decide_true, Bool.and_self, Bool.not_false]

theorem headChar?_four (ha : 0xF0 ≤ a ∧ a < 0xF5) (hb : 0x80 ≤ b ∧ b < 0xC0)
    (hc : 0x80 ≤ c ∧ c < 0xC0) (hd : 0x80 ≤ d ∧ d < 0xC0) {v : Nat}
    (hv : (a - 0xF0) * 262144 + (b - 0x80) * 4096 + (c - 0x80) * 64 + (d - 0x80) = v)
    (hlong : 0x10000 ≤ v) (hlast : v ≤ 0x10FFFF) :
    headChar? (UInt8.ofNat a :: UInt8.ofNat b :: UInt8.ofNat c :: UInt8.ofNat d :: rest) =
      some (Char.ofNat v, 4) := by
  simp only [headChar?, UInt8.lt_iff_toNat_lt, UInt8.reduceToNat,
    UInt8.toNat_ofNat_of_lt' (show a < 256 by omega),
    UInt8.toNat_ofNat_of_lt' (show b < 256 by omega),
    UInt8.toNat_ofNat_of_lt' (show c < 256 by omega),
    UInt8.toNat_ofNat_of_lt' (show d < 256 by omega), isContinuation_ofNat hb,
    isContinuation_ofNat hc, isContinuation_ofNat hd, show ¬ a < 0x80 by omega,
    show ¬ a < 0xC2 by omega,
    show ¬ a < 0xE0 by omega, show ¬ a < 0xF0 by omega, ha.2, if_true, if_false, hv, hlong, hlast,
    decide_true, Bool.and_self]

/-- The bytes of a character are read as that character, whatever follows. -/
theorem headChar?_encode (x : Char) :
    headChar? (String.utf8EncodeChar x ++ rest) = some (x, (String.utf8EncodeChar x).length) := by
  have hvalid : x.val.toNat < 0xD800 ∨ 0xDFFF < x.val.toNat ∧ x.val.toNat < 0x110000 := x.valid
  have hx : Char.ofNat x.val.toNat = x := Char.ofNat_toNat x
  unfold String.utf8EncodeChar
  dsimp only
  generalize x.val.toNat = v at hvalid hx
  split
  · exact (headChar?_one rest (by omega)).trans (by rw [hx]; rfl)
  split
  · refine (headChar?_two rest (by omega) (by omega)).trans ?_
    rw [show (v / 64 % 0x20 + 0xC0 - 0xC0) * 64 + (v % 0x40 + 0x80 - 0x80) = v by omega, hx]
    rfl
  split
  · refine (headChar?_three rest (v := v) (by omega) (by omega) (by omega) (by omega) (by omega)
      (by omega)).trans ?_
    rw [hx]
    rfl
  · refine (headChar?_four rest (v := v) (by omega) (by omega) (by omega) (by omega) (by omega)
      (by omega) (by omega)).trans ?_
    rw [hx]
    rfl

end HeadChar

/-! ## Reading a text back -/

/-- Bytes that a character has used up are passed over. -/
theorem charsFrom_append : ∀ (used rest : Bytes), charsFrom used.length (used ++ rest) =
    charsFrom 0 rest
  | [], rest => rfl
  | _ :: used, rest => by
      rw [List.length_cons, List.cons_append, charsFrom]
      exact charsFrom_append used rest

theorem charsFrom_encode (c : Char) (rest : Bytes) :
    charsFrom 0 (String.utf8EncodeChar c ++ rest) =
      (c, (String.utf8EncodeChar c).length) :: charsFrom 0 rest := by
  have hhead := headChar?_encode rest c
  cases hbytes : String.utf8EncodeChar c with
  | nil => exact absurd hbytes String.utf8EncodeChar_ne_nil
  | cons b used =>
      rw [hbytes, List.cons_append] at hhead
      rw [List.cons_append, charsFrom, hhead]
      simp only [List.length_cons, Nat.add_sub_cancel]
      rw [charsFrom_append]

/-- The bytes of a text are read back as the text. -/
@[simp] theorem toText_ofString (s : String) : (ofString s).toText = s := by
  have hchars : ∀ cs : List Char,
      (charsFrom 0 (cs.flatMap String.utf8EncodeChar)).map (·.1) = cs := by
    intro cs
    induction cs with
    | nil => rfl
    | cons c cs ih => rw [List.flatMap_cons, charsFrom_encode, List.map_cons, ih]
  rw [toText, chars, ofString_eq, hchars, String.ofList_toList]

theorem ofString_injective : Function.Injective ofString := fun s t h => by
  rw [← toText_ofString s, h, toText_ofString]

theorem eq_zero_of_ofNat {n : Nat} (hn : n < 256) (h : 0 = UInt8.ofNat n) : n = 0 := by
  rw [← UInt8.toNat_ofNat_of_lt' hn, ← h]
  rfl

/-- A zero among the bytes of a text is the character zero. -/
theorem zero_mem_ofString {s : String} (h : 0 ∈ ofString s) : Char.ofNat 0 ∈ s.toList := by
  rw [ofString_eq] at h
  obtain ⟨c, hc, hzero⟩ := List.mem_flatMap.mp h
  have hnat : c.val.toNat = 0 := by
    unfold String.utf8EncodeChar at hzero
    dsimp only at hzero
    generalize c.val.toNat = v at hzero
    split at hzero
    · exact eq_zero_of_ofNat (by omega) (List.mem_singleton.mp hzero)
    -- all other bytes are at least 0x80
    have hlarge : ∀ n : Nat, 0x80 ≤ n ∧ n < 256 → (0 : UInt8) ≠ UInt8.ofNat n := fun n hn h => by
      have := eq_zero_of_ofNat hn.2 h
      omega
    split at hzero
    · simp only [List.mem_cons, List.not_mem_nil, or_false] at hzero
      rcases hzero with h | h <;> exact absurd h (hlarge _ (by omega))
    split at hzero
    · simp only [List.mem_cons, List.not_mem_nil, or_false] at hzero
      rcases hzero with h | h | h <;> exact absurd h (hlarge _ (by omega))
    · simp only [List.mem_cons, List.not_mem_nil, or_false] at hzero
      rcases hzero with h | h | h | h <;> exact absurd h (hlarge _ (by omega))
  have hzero : c = Char.ofNat 0 := by
    rw [← Char.ofNat_toNat c]
    exact congrArg Char.ofNat hnat
  exact hzero ▸ hc

/-! ## Hexadecimal texts -/

theorem hexValue?_digitChar : ∀ n < 16, hexValue? (Nat.digitChar n) = some n := by decide

theorem ofHexChars?_flatMap : ∀ bytes : Bytes, ofHexChars? (bytes.flatMap hexDigits) = some bytes
  | [] => rfl
  | b :: bytes => by
      have hb := b.toNat_lt
      rw [List.flatMap_cons, hexDigits, List.cons_append, List.cons_append, List.nil_append,
        ofHexChars?, hexValue?_digitChar _ (by omega), hexValue?_digitChar _ (by omega),
        ofHexChars?_flatMap bytes]
      change some (UInt8.ofNat (b.toNat / 16 * 16 + b.toNat % 16) :: bytes) = _
      rw [Nat.div_add_mod', UInt8.ofNat_toNat]

/-- The hexadecimal text of bytes spells them. -/
theorem ofHex?_toHex (bytes : Bytes) : ofHex? (toHex bytes) = some bytes := by
  rw [ofHex?, toHex, String.toList_ofList, ofHexChars?_flatMap]

theorem toHex_injective : Function.Injective toHex := fun a b h => by
  have := ofHex?_toHex a
  rw [h, ofHex?_toHex] at this
  exact (Option.some.inj this).symm

/-- The hexadecimal text of bytes has only digits. -/
theorem isSome_hexValue?_of_mem_toHex {bytes : Bytes} {c : Char} (h : c ∈ (toHex bytes).toList) :
    (hexValue? c).isSome = true := by
  rw [toHex, String.toList_ofList, List.mem_flatMap] at h
  obtain ⟨b, _, hc⟩ := h
  have hb := b.toNat_lt
  rcases List.mem_pair.mp hc with rfl | rfl
  · rw [hexValue?_digitChar _ (by omega)]
    rfl
  · rw [hexValue?_digitChar _ (by omega)]
    rfl

end Netlist.Bytes
