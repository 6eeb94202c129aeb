import Netlist.Json.Parser
import Netlist.Json.Printer
import Netlist.Proofs.Text.Binary64
import Netlist.Proofs.Text.Bytes

/-!
# Texts and integers are read as they are written

A written text is read one character after the other: however a character is written, reading
takes one step over it (`Json.readString_escapedChar`).  An integer below 10²¹ is written in
decimal without an exponent (`JsonNumber.render_ofInt`) and read as the same exact number.
Whether it is a double too is a question for whoever uses the number.
-/

namespace Netlist

namespace Json

/-! ## Texts -/

theorem hexPadded_four {n : Nat} (h : n < 0x10000) : Text.hexPadded 4 n =
    [Nat.digitChar (n / 0x1000), Nat.digitChar (n / 0x100 % 16), Nat.digitChar (n / 0x10 % 16),
      Nat.digitChar (n % 16)] := by
  have hnext : ∀ {m : Nat}, 16 ≤ m →
      Nat.toDigits 16 m = Nat.toDigits 16 (m / 16) ++ [(m % 16).digitChar] :=
    fun hm => Nat.toDigits_of_base_le (by decide) hm
  have hlast : ∀ {m : Nat}, m < 16 → Nat.toDigits 16 m = [m.digitChar] := Nat.toDigits_of_lt_base
  have hzero : '0' = Nat.digitChar 0 := rfl
  unfold Text.hexPadded
  rcases Nat.lt_or_ge n 16 with h1 | h1
  · rw [hlast h1, hzero, show n / 0x1000 = 0 by omega, show n / 0x100 = 0 by omega,
      show n / 0x10 = 0 by omega, show n % 16 = n by omega]
    rfl
  rcases Nat.lt_or_ge n 256 with h2 | h2
  · rw [hnext h1, hlast (by omega), hzero, show n / 0x1000 = 0 by omega,
      show n / 0x100 = 0 by omega, show n / 0x10 % 16 = n / 16 by omega]
    rfl
  rcases Nat.lt_or_ge n 4096 with h3 | h3
  · rw [hnext h1, hnext (by omega), hlast (by omega), hzero, show n / 0x1000 = 0 by omega,
      Nat.div_div_eq_div_mul, show n / 0x100 % 16 = n / (16 * 16) by omega]
    rfl
  · rw [hnext h1, hnext (by omega), hnext (by omega), hlast (by omega)]
    simp only [Nat.div_div_eq_div_mul]
    rfl

theorem utf8EncodeChar_digitChar : ∀ n < 16, String.utf8EncodeChar (Nat.digitChar n) =
    [UInt8.ofNat (Nat.digitChar n).toNat] := by decide

theorem hexValue?_ofNat_digitChar : ∀ n < 16, Bytes.hexValue?
    (Char.ofNat (UInt8.ofNat (Nat.digitChar n).toNat).toNat) = some n := by decide

theorem readUnit_hexPadded {n : Nat} (h : n < 0x10000) (rest : List Char) :
    readUnit (Text.hexPadded 4 n ++ rest) = .ok (n, rest) := by
  have hdigit : ∀ m, m % 16 < 16 := fun m => Nat.mod_lt m (by decide)
  have hfirst : n / 0x1000 < 16 := by omega
  rw [hexPadded_four h]
  unfold readUnit
  simp only [List.cons_append, List.nil_append, List.take_succ_cons, List.take_zero,
    List.drop_succ_cons, List.drop_zero, Bytes.ofString_eq, String.toList_ofList, List.flatMap_cons,
    List.flatMap_nil, utf8EncodeChar_digitChar _ hfirst, utf8EncodeChar_digitChar _ (hdigit _),
    hexUnit?, hexValue?_ofNat_digitChar _ hfirst, hexValue?_ofNat_digitChar _ (hdigit _)]
  simp
  omega

/-- However a character is written, reading takes one step over it. -/
theorem readString_escapedChar (fuel : Nat) (acc : List Char) (c : Char) (rest : List Char) :
    readString (fuel + 1) none acc (escapedChar c ++ rest) =
      readString fuel none (c :: acc) rest := by
  have hchar : ∀ {n : Nat}, c.toNat = n → c = Char.ofNat n := by
    rintro n rfl
    exact (Char.ofNat_toNat c).symm
  unfold escapedChar
  split
  case h_1 h => rw [hchar h]; rfl
  case h_2 h => rw [hchar h]; rfl
  case h_3 h => rw [hchar h]; rfl
  case h_4 h => rw [hchar h]; rfl
  case h_5 h => rw [hchar h]; rfl
  case h_6 h => rw [hchar h]; rfl
  case h_7 h => rw [hchar h]; rfl
  next hquote hslash _ _ _ _ _ =>
    have hquote : (c == '"') = false := by
      rw [beq_eq_false_iff_ne]
      rintro rfl
      exact hquote rfl
    have hslash : (c == '\\') = false := by
      rw [beq_eq_false_iff_ne]
      rintro rfl
      exact hslash rfl
    split
    · next hescape =>
      simp only [Bool.or_eq_true, decide_eq_true_eq, beq_iff_eq] at hescape
      have hhalf : ¬ 0xD800 ≤ c.toNat := by omega
      have hplain : unitChar c.toNat = c := by
        rw [unitChar, if_neg (by simp [hhalf]), Char.ofNat_toNat]
      rw [List.cons_append, List.cons_append, readString, readUnit_hexPadded (by omega)]
      simp [bind, Except.bind, hplain, hhalf]
    · next hplain =>
      simp only [Bool.or_eq_true, decide_eq_true_eq, not_or] at hplain
      rw [List.singleton_append, readString.eq_def]
      simp [hquote, hslash, hplain]

theorem length_le_length_flatMap : ∀ cs : List Char,
    cs.length ≤ (cs.flatMap escapedChar).length
  | [] => le_rfl
  | c :: cs => by
      have hpos : 0 < (escapedChar c).length := by
        unfold escapedChar
        split
        case h_8 => split <;> simp
        all_goals simp
      rw [List.flatMap_cons, List.length_append, List.length_cons]
      have := length_le_length_flatMap cs
      omega

theorem readString_flatMap : ∀ (cs : List Char) {fuel : Nat} (acc rest : List Char),
    cs.length < fuel →
    readString fuel none acc (cs.flatMap escapedChar ++ '"' :: rest) =
      .ok (String.ofList (acc.reverse ++ cs), rest)
  | [], fuel + 1, acc, rest, _ => by simp [readString]
  | c :: cs, fuel + 1, acc, rest, h => by
      rw [List.flatMap_cons, List.append_assoc, readString_escapedChar,
        readString_flatMap cs _ _ (by simpa using h)]
      simp

end Json

namespace JsonNumber

/-! ## Integers -/

theorem exists_normalDigits : ∀ (fuel n : Nat) (power : Int), ∃ m k : Nat,
    normalDigits fuel n power = (m, power + k) ∧ n = m * 10 ^ k
  | 0, n, power => ⟨n, 0, by simp [normalDigits], by simp⟩
  | fuel + 1, n, power => by
      rw [normalDigits]
      split
      · next h =>
        simp only [Bool.and_eq_true, beq_iff_eq] at h
        obtain ⟨m, k, heq, hn⟩ := exists_normalDigits fuel (n / 10) (power + 1)
        refine ⟨m, k + 1, by rw [heq]; push_cast; ring_nf, ?_⟩
        rw [pow_succ, ← mul_assoc, ← hn]
        omega
      · exact ⟨n, 0, by simp, by simp⟩

theorem toDigits_mul_pow {m : Nat} (hm : 0 < m) : ∀ k : Nat,
    Nat.toDigits 10 (m * 10 ^ k) = Nat.toDigits 10 m ++ List.replicate k '0'
  | 0 => by simp
  | k + 1 => by
      have hnext := Nat.toDigits_append_toDigits (b := 10) (n := m * 10 ^ k) (d := 0) (by decide)
        (by positivity) (by decide)
      rw [show m * 10 ^ (k + 1) = 10 * (m * 10 ^ k) + 0 by ring, ← hnext, toDigits_mul_pow hm k,
        List.replicate_succ', List.append_assoc]
      rfl

/-- The decimal digits of an integer, with its sign. -/
def integerChars (n : Int) : List Char :=
  if n < 0 then '-' :: Nat.toDigits 10 n.natAbs else Nat.toDigits 10 n.natAbs

/-- An integer that is not too long is written without an exponent. -/
theorem render_ofInt {n : Int} (hn : n.natAbs < 10 ^ 21) :
    (ofInt n).render = String.ofList (integerChars n) := by
  obtain ⟨m, k, hnormal, hvalue⟩ :=
    exists_normalDigits (Nat.toDigits 10 n.natAbs).length n.natAbs 0
  unfold render ofInt integerChars
  simp only [hnormal]
  by_cases hm : m = 0
  · subst hm
    rw [zero_mul] at hvalue
    rw [hvalue]
    simp
  · have hdigits : Nat.toDigits 10 n.natAbs = Nat.toDigits 10 m ++ List.replicate k '0' := by
      rw [hvalue, toDigits_mul_pow (Nat.pos_of_ne_zero hm)]
    have hlength : (Nat.toDigits 10 m).length + k ≤ 21 := by
      have := (Nat.length_toDigits_le_iff (by decide) (by decide)).mpr hn
      simpa [hdigits] using this
    have hpositive : 0 < (Nat.toDigits 10 m).length := Nat.length_toDigits_pos
    have hpoint : Int.ofNat (Nat.toDigits 10 m).length + (0 + k) =
        (((Nat.toDigits 10 m).length + k : Nat) : Int) := by simp
    have hplain : ¬ ((((Nat.toDigits 10 m).length + k : Nat) : Int) ≤ -6 ∨
        21 < (((Nat.toDigits 10 m).length + k : Nat) : Int)) := by omega
    have hwhole : ¬ (((Nat.toDigits 10 m).length + k : Nat) : Int) ≤ 0 := by omega
    simp only [hpoint, beq_iff_eq, hm, if_false, Bool.or_eq_true, decide_eq_true_eq, hplain, hwhole,
      Int.toNat_natCast, Nat.le_add_right, if_true, Nat.add_sub_cancel_left, ← hdigits]

theorem head?_toDigits {n : Nat} (hn : 0 < n) : (Nat.toDigits 10 n).head? ≠ some '0' := by
  induction n using Nat.strongRecOn with
  | ind n ih =>
    rcases Nat.lt_or_ge n 10 with hlt | hge
    · have hdigit : ∀ m < 10, 0 < m → Nat.digitChar m ≠ '0' := by decide
      rw [Nat.toDigits_of_lt_base hlt]
      simpa using hdigit n hlt hn
    · rw [Nat.toDigits_of_base_le (by decide) hge,
        List.head?_append_of_ne_nil _ Nat.toDigits_ne_nil]
      exact ih (n / 10) (by omega) (by omega)

end JsonNumber

namespace Json

theorem isDigit_of_mem_toDigits {n : Nat} {c : Char} (h : c ∈ Nat.toDigits 10 n) :
    isDigit c = true := by
  have := Nat.isDigit_of_mem_toDigits (by decide) (by decide) h
  simpa [isDigit, Decimal.isDigit, Char.isDigit, Char.le_def] using this

theorem readDigits_toDigits (n : Nat) :
    readDigits (Nat.toDigits 10 n) = .ok (Nat.toDigits 10 n, []) := by
  have hall : ∀ c ∈ Nat.toDigits 10 n, isDigit c = true := fun _ => isDigit_of_mem_toDigits
  have hspan : spanDigits (Nat.toDigits 10 n) = (Nat.toDigits 10 n, []) := by
    rw [spanDigits, List.takeWhile_eq_self_iff.mpr hall, List.dropWhile_eq_nil_iff.mpr hall]
  unfold readDigits
  split
  · next h => exact absurd h Nat.toDigits_ne_nil
  · next c cs h =>
    rw [if_pos (hall c (h ▸ List.mem_cons_self ..)), hspan]

theorem readWhole_toDigits (n : Nat) :
    readWhole (Nat.toDigits 10 n) = .ok (Nat.toDigits 10 n, []) := by
  by_cases hn : n = 0
  · subst hn
    rfl
  · unfold readWhole
    split
    · next rest h =>
      have := JsonNumber.head?_toDigits (Nat.pos_of_ne_zero hn)
      rw [h] at this
      exact absurd rfl this
    · exact readDigits_toDigits n

theorem readMinus_integerChars (n : Int) :
    readMinus (JsonNumber.integerChars n) = (decide (n < 0), Nat.toDigits 10 n.natAbs) := by
  unfold JsonNumber.integerChars
  split
  · next hn => simp [readMinus, hn]
  · next hn =>
    unfold readMinus
    split
    · next rest h =>
      have hminus : isDigit '-' = true := isDigit_of_mem_toDigits (h ▸ List.mem_cons_self ..)
      exact absurd hminus (by decide)
    · simp [hn]

theorem readNumber_integerChars (n : Int) :
    readNumber (JsonNumber.integerChars n) = .ok (JsonNumber.ofInt n, []) := by
  rw [readNumber, readMinus_integerChars]
  simp only [readWhole_toDigits, bind, Except.bind, readFraction, readPower, pure, Except.pure,
    List.append_nil, Nat.ofDigitChars_ten_toDigits]
  rfl

/-! ## Values -/

theorem readNumeric_integerChars {n : Int} (hlog : n.natAbs.log2 ≤ 1022) :
    readNumeric (JsonNumber.integerChars n) = .ok ⟨.int n, none, []⟩ := by
  have hfits : (JsonNumber.ofInt n).toBinary64.overflows = false := by
    rw [JsonNumber.toBinary64, JsonNumber.ofInt, Binary64.ofDecimal_of_log2_le hlog,
      Binary64.overflows_nearest hlog]
  rw [readNumeric, readNumber_integerChars]
  simp [bind, Except.bind, pure, Except.pure, hfits, int]

/-- A value that starts like a number is one. -/
theorem readValue_of_numeric {c : Char} (hc : c = '-' ∨ isDigit c = true) (fuel depth : Nat)
    (rest : List Char) : readValue (fuel + 1) depth (c :: rest) = readNumeric (c :: rest) := by
  have hother : ∀ d, d ≠ '-' → isDigit d = false → c ≠ d := by
    rintro d hminus hdigit rfl
    rcases hc with h | h
    · exact hminus h
    · rw [hdigit] at h
      cases h
  have hskip : skipSpaces (c :: rest) = c :: rest := by
    simp [skipSpaces, isSpace, hother ' ' (by decide) (by decide),
      hother '\t' (by decide) (by decide), hother '\n' (by decide) (by decide),
      hother '\r' (by decide) (by decide)]
  rw [readValue, hskip]
  split
  case h_1 heq => cases heq
  case h_8 heq =>
    cases heq
    rw [if_pos (by simpa using hc)]
  all_goals
    next heq =>
    cases heq
    exact absurd rfl (hother _ (by decide) (by decide))

theorem exists_integerChars (n : Int) :
    ∃ c rest, JsonNumber.integerChars n = c :: rest ∧ (c = '-' ∨ isDigit c = true) := by
  unfold JsonNumber.integerChars
  split
  · exact ⟨'-', _, rfl, .inl rfl⟩
  · obtain ⟨c, rest, h⟩ := List.exists_cons_of_ne_nil (l := Nat.toDigits 10 n.natAbs)
      Nat.toDigits_ne_nil
    exact ⟨c, rest, h, .inr (isDigit_of_mem_toDigits (h ▸ List.mem_cons_self ..))⟩

/-- What is read when the first value fills the text. -/
theorem read_of_readValue {s : String} {v : Json} {large : Option LargeNumber}
    (h : readValue (2 * s.toList.length + 2) 0 s.toList = .ok ⟨v, large, []⟩) :
    read s = .ok (v, large) := by
  rw [read, readAll, h]
  rfl

/-- An integer that is written without an exponent and is no longer than a double is read as
itself. -/
theorem read_compact_int {n : Int} (hn : n.natAbs < 10 ^ 21) :
    read (int n).compact = .ok (.int n, none) := by
  have hlog : n.natAbs.log2 ≤ 1022 := by
    by_cases hzero : n.natAbs = 0
    · rw [hzero]
      decide
    · have : n.natAbs.log2 < 70 := (Nat.log2_lt hzero).mpr (by omega)
      omega
  obtain ⟨c, rest, hchars, hc⟩ := exists_integerChars n
  apply read_of_readValue
  rw [int, compact, JsonNumber.render_ofInt hn, String.toList_ofList, hchars,
    readValue_of_numeric hc, ← hchars, readNumeric_integerChars hlog]
  rfl

/-- Every text is read as itself. -/
theorem read_compact_str (s : String) : read (compact (.str s)) = .ok (.str s, none) := by
  have hskip : ∀ rest, skipSpaces ('"' :: rest) = '"' :: rest := fun _ => rfl
  have hlength : s.toList.length < (s.toList.flatMap escapedChar ++ ['"']).length + 1 := by
    have := length_le_length_flatMap s.toList
    rw [List.length_append]
    omega
  apply read_of_readValue
  rw [compact, renderString, String.toList_ofList, readValue, hskip]
  simp only [readString_flatMap s.toList [] [] hlength, List.reverse_nil, List.nil_append,
    String.ofList_toList]
  rfl

end Json

end Netlist
