import Mathlib
import Netlist.Text.Binary64

/-!
# Integers as doubles

An integer is a double when it has at most 53 binary digits and zeros behind them
(`IsExact`).  `Rounds n d` says that `d` is the double nearest to the integer `n`, a tie going
to the even mantissa.  There is exactly one such `d`, and cutting the rounded double back to an
integer gives it (`rounds_truncate`).

From 2⁵² on the doubles of one length are the multiples of one unit, so the argument is about
multiples: those next to a number are half a unit away at most, and two of them are a unit
apart.
-/

namespace Netlist.Binary64

/-! ## Nearest doubles -/

/-- An integer that is a double. -/
def IsExact (n : Int) : Prop := ∃ m k : Nat, m < 2 ^ 53 ∧ n.natAbs = m * 2 ^ k

/-- The double nearest to an integer, of two the one with the even mantissa: it is a multiple of
twice their distance. -/
structure Rounds (n d : Int) : Prop where
  exact : IsExact d
  nearest : ∀ x, IsExact x → (n - d).natAbs ≤ (n - x).natAbs
  even : ∀ x, IsExact x → x ≠ d → (n - x).natAbs = (n - d).natAbs → 2 * (d - x) ∣ d

theorem IsExact.neg {n : Int} (h : IsExact n) : IsExact (-n) := by
  obtain ⟨m, k, hm, hn⟩ := h
  exact ⟨m, k, hm, by rw [Int.natAbs_neg, hn]⟩

theorem isExact_pow (k : Nat) : IsExact (2 ^ k) := ⟨1, k, by norm_num, by simp [Int.natAbs_pow]⟩

theorem isExact_of_natAbs_le {n : Int} (h : n.natAbs ≤ 2 ^ 53) : IsExact n := by
  rcases h.lt_or_eq with hlt | heq
  · exact ⟨n.natAbs, 0, hlt, by simp⟩
  · exact ⟨1, 53, by norm_num, by rw [heq, one_mul]⟩

theorem Rounds.neg {n d : Int} (h : Rounds n d) : Rounds (-n) (-d) where
  exact := h.exact.neg
  nearest x hx := by
    have := h.nearest (-x) hx.neg
    omega
  even x hx hne htie := by
    have := h.even (-x) hx.neg (by omega) (by omega)
    rw [show 2 * (-d - x) = -(2 * (d - -x)) by ring]
    exact neg_dvd.mpr (dvd_neg.mpr this)

/-- Two nearest doubles are each a multiple of twice their distance, so there is none. -/
theorem Rounds.unique {n d d' : Int} (h : Rounds n d) (h' : Rounds n d') : d = d' := by
  by_contra hne
  have htie : (n - d').natAbs = (n - d).natAbs :=
    le_antisymm (h'.nearest d h.exact) (h.nearest d' h'.exact)
  have hd : 2 * (d - d') ∣ d := h.even d' h'.exact (Ne.symm hne) htie
  have hd' : 2 * (d - d') ∣ d' := by
    have := h'.even d h.exact hne htie.symm
    rwa [show 2 * (d' - d) = -(2 * (d - d')) by ring, neg_dvd] at this
  have hpos : 0 < (d - d').natAbs := by omega
  have hle := Nat.le_of_dvd hpos (Int.natAbs_dvd_natAbs.mpr (dvd_sub hd hd'))
  omega

theorem Rounds.of_isExact {n : Int} (h : IsExact n) : Rounds n n where
  exact := h
  nearest x _ := by simp
  even x _ hne htie := by omega

/-- A number is read back as itself exactly when it is a double. -/
theorem Rounds.eq_iff {n d : Int} (h : Rounds n d) : d = n ↔ IsExact n :=
  ⟨fun heq => heq ▸ h.exact, fun hn => h.unique (.of_isExact hn)⟩

/-- Rounding does not lead past a double. -/
theorem Rounds.le_of_le {n d x : Int} (h : Rounds n d) (hx : IsExact x) (hn : n ≤ x) : d ≤ x := by
  have := h.nearest x hx
  omega

/-! ## Rounding to a multiple -/

theorem roundHalfEven_cases (num den : Nat) :
    roundHalfEven num den = num / den ∧ 2 * (num % den) ≤ den ∧
        (2 * (num % den) = den → 2 ∣ num / den) ∨
      roundHalfEven num den = num / den + 1 ∧ den ≤ 2 * (num % den) ∧
        (2 * (num % den) = den → 2 ∣ num / den + 1) := by
  unfold roundHalfEven
  dsimp only
  split_ifs with hless hmore heven
  · exact .inl ⟨rfl, by omega, by omega⟩
  · exact .inr ⟨rfl, by omega, by omega⟩
  · rw [beq_iff_eq] at heven
    exact .inl ⟨rfl, by omega, fun _ => Nat.dvd_of_mod_eq_zero heven⟩
  · rw [beq_iff_eq] at heven
    exact .inr ⟨rfl, by omega, fun _ => by omega⟩

/-- The nearest multiple of a unit is half a unit away at most, and an even one if it is that
far. -/
theorem roundHalfEven_spec (num : Nat) {den : Nat} (hden : 0 < den) :
    2 * ((num : Int) - (roundHalfEven num den * den : Nat)).natAbs ≤ den ∧
      (2 * ((num : Int) - (roundHalfEven num den * den : Nat)).natAbs = den →
        2 ∣ roundHalfEven num den) := by
  have hdiv : num / den * den + num % den = num := Nat.div_add_mod' num den
  have hmod : num % den < den := Nat.mod_lt num hden
  rcases roundHalfEven_cases num den with ⟨heq, hr, heven⟩ | ⟨heq, hr, heven⟩
  · rw [heq]
    exact ⟨by omega, fun h => heven (by omega)⟩
  · have hnext : (num / den + 1) * den = num / den * den + den := Nat.succ_mul ..
    rw [heq, hnext]
    exact ⟨by omega, fun h => heven (by omega)⟩

/-- The natural number at the unit of its 53 leading binary digits. -/
def rounded (n : Nat) : Nat := roundHalfEven n (2 ^ (n.log2 - 52)) * 2 ^ (n.log2 - 52)

variable {n : Nat}

theorem ne_zero_of_le_log2 (hlog : 52 ≤ n.log2) : n ≠ 0 := by
  rintro rfl
  exact absurd hlog (by decide)

theorem unit_bounds (hlog : 52 ≤ n.log2) :
    2 ^ 52 * 2 ^ (n.log2 - 52) ≤ n ∧ n < 2 ^ 53 * 2 ^ (n.log2 - 52) := by
  rw [← Nat.pow_add, ← Nat.pow_add, show 52 + (n.log2 - 52) = n.log2 by omega,
    show 53 + (n.log2 - 52) = n.log2 + 1 by omega]
  exact ⟨Nat.log2_self_le (ne_zero_of_le_log2 hlog), Nat.lt_log2_self⟩

theorem rounded_of_log2_lt (hlog : n.log2 < 52) : rounded n = n := by
  rw [rounded, show n.log2 - 52 = 0 by omega]
  simp [roundHalfEven, Nat.mod_one]

/-- The mantissa may grow by one digit, and is a power of two then. -/
theorem mantissa_le (hlog : 52 ≤ n.log2) :
    roundHalfEven n (2 ^ (n.log2 - 52)) ≤ 2 ^ 53 := by
  have hbelow := (Nat.div_lt_iff_lt_mul (Nat.two_pow_pos _)).mpr (unit_bounds hlog).2
  rcases roundHalfEven_cases n (2 ^ (n.log2 - 52)) with ⟨heq, -⟩ | ⟨heq, -⟩ <;> omega

theorem isExact_rounded (n : Nat) : IsExact (rounded n) := by
  by_cases hlog : n.log2 < 52
  · rw [rounded_of_log2_lt hlog]
    apply isExact_of_natAbs_le
    calc n ≤ 2 ^ (n.log2 + 1) := Nat.lt_log2_self.le
      _ ≤ 2 ^ 53 := Nat.pow_le_pow_right (by norm_num) (by omega)
  · rcases (mantissa_le (not_lt.mp hlog)).lt_or_eq with hlt | heq
    · exact ⟨_, _, hlt, rfl⟩
    · refine ⟨2 ^ 52, n.log2 - 52 + 1, by norm_num, ?_⟩
      rw [Int.natAbs_natCast, rounded, heq, pow_succ 2 (n.log2 - 52)]
      ring

/-- A double of at least 53 binary digits is a multiple of the unit of its length. -/
theorem IsExact.dvd {x : Int} (hx : IsExact x) {k : Nat} (hle : 2 ^ 52 * 2 ^ k ≤ x.natAbs) :
    (2 ^ k : Int) ∣ x := by
  obtain ⟨m, j, hm, habs⟩ := hx
  have hkj : k ≤ j := by
    by_contra hlt
    have hpow : 2 ^ (j + 1) ≤ 2 ^ k := Nat.pow_le_pow_right (by norm_num) (by omega)
    have : m * 2 ^ j < 2 ^ 53 * 2 ^ j := Nat.mul_lt_mul_of_pos_right hm (Nat.two_pow_pos j)
    rw [pow_succ] at hpow
    omega
  have hdvd : 2 ^ k ∣ x.natAbs := habs ▸ Dvd.dvd.mul_left (pow_dvd_pow 2 hkj) m
  exact_mod_cast Int.natCast_dvd.mpr hdvd

/-- The other multiples of the unit are no nearer, and one as near is a unit away. -/
theorem rounded_nearest_multiple (n : Nat) {y : Int} (hy : (2 ^ (n.log2 - 52) : Int) ∣ y)
    (hne : y ≠ rounded n) :
    ((n : Int) - rounded n).natAbs ≤ (n - y).natAbs ∧
      ((n - y).natAbs = ((n : Int) - rounded n).natAbs →
        (rounded n - y).natAbs = 2 ^ (n.log2 - 52) ∧
          2 ∣ roundHalfEven n (2 ^ (n.log2 - 52))) := by
  obtain ⟨hhalf, heven⟩ := roundHalfEven_spec n (Nat.two_pow_pos (n.log2 - 52))
  rw [← rounded] at hhalf heven
  have hrounded : (2 ^ (n.log2 - 52) : Int) ∣ rounded n :=
    ⟨roundHalfEven n (2 ^ (n.log2 - 52)), by rw [rounded]; push_cast; ring⟩
  have hapart : 2 ^ (n.log2 - 52) ≤ (rounded n - y).natAbs := by
    refine Nat.le_of_dvd (by omega) ?_
    have := Int.natAbs_dvd_natAbs.mpr (dvd_sub hrounded hy)
    rwa [Int.natAbs_pow] at this
  exact ⟨by omega, fun htie => ⟨by omega, heven (by omega)⟩⟩

theorem rounds_rounded (n : Nat) : Rounds n (rounded n) := by
  by_cases hlog : n.log2 < 52
  · have hexact := isExact_rounded n
    rw [rounded_of_log2_lt hlog] at hexact ⊢
    exact .of_isExact hexact
  have hlow := (unit_bounds (not_lt.mp hlog)).1
  -- the least double of this length is a multiple too, and a shorter double is farther away
  have hleast : ((n : Int) - rounded n).natAbs ≤ n - 2 ^ 52 * 2 ^ (n.log2 - 52) := by
    by_cases heq : ((2 ^ 52 * 2 ^ (n.log2 - 52) : Nat) : Int) = rounded n
    · omega
    · have := (rounded_nearest_multiple n (y := (2 ^ 52 * 2 ^ (n.log2 - 52) : Nat))
        ⟨2 ^ 52, by push_cast; ring⟩ heq).1
      omega
  have hmultiple : ∀ x, IsExact x → (n - x).natAbs ≤ ((n : Int) - rounded n).natAbs →
      (2 ^ (n.log2 - 52) : Int) ∣ x := by
    intro x hx hnear
    exact hx.dvd (by omega)
  constructor
  case exact => exact isExact_rounded n
  case nearest =>
    intro x hx
    by_contra hnear
    rw [not_le] at hnear
    have hne : x ≠ rounded n := by
      rintro rfl
      exact lt_irrefl _ hnear
    exact absurd (rounded_nearest_multiple n (hmultiple x hx hnear.le) hne).1 (not_le.mpr hnear)
  case even =>
    intro x hx hne htie
    obtain ⟨hunit, q, hq⟩ := (rounded_nearest_multiple n (hmultiple x hx htie.le) hne).2 htie
    rw [← Int.natAbs_dvd_natAbs, Int.natAbs_mul, hunit, Int.natAbs_natCast, rounded, hq]
    exact ⟨q, by rw [show Int.natAbs 2 = 2 from rfl]; ring⟩

/-! ## The double of an integer -/

theorem scaled_natCast (num den k : Nat) : scaled num den k = (num, den * 2 ^ k) := by
  simp [scaled]

theorem floorLog2_one (hn : n ≠ 0) : floorLog2 n 1 = n.log2 := by
  have hguess : Int.ofNat n.log2 - Int.ofNat (Nat.log2 1) = (n.log2 : Int) := by
    simp [show Nat.log2 1 = 0 from rfl]
  have habove : ¬ 1 * 2 ^ (n.log2 + 1) ≤ n := by
    rw [one_mul, not_le]
    exact Nat.lt_log2_self
  have hbelow : 1 * 2 ^ n.log2 ≤ n := by
    rw [one_mul]
    exact Nat.log2_self_le hn
  unfold floorLog2
  simp only [hguess, show (n.log2 : Int) + 1 = ((n.log2 + 1 : Nat) : Int) from rfl, scaled_natCast,
    habove, hbelow, decide_false, decide_true, Bool.false_eq_true, if_false, if_true]

theorem nearest_of_le (hlog : 52 ≤ n.log2) (negative : Bool) :
    ∃ m k : Nat, nearest negative n 1 = ⟨negative, m, k⟩ ∧ k ≤ n.log2 - 51 ∧
      m * 2 ^ k = rounded n := by
  have hn := ne_zero_of_le_log2 hlog
  have he : max (floorLog2 n 1 - 52) (-1074) = ((n.log2 - 52 : Nat) : Int) := by
    rw [floorLog2_one hn]
    omega
  unfold nearest
  rw [if_neg (by simpa using hn), he]
  simp only [scaled_natCast, one_mul]
  split
  · next heq =>
    rw [beq_iff_eq] at heq
    refine ⟨_, n.log2 - 52 + 1, rfl, by omega, ?_⟩
    rw [rounded, heq, pow_succ 2 (n.log2 - 52)]
    ring
  · exact ⟨_, _, rfl, by omega, rfl⟩

theorem nearest_of_lt (hn : n ≠ 0) (hlog : n.log2 < 52) (negative : Bool) :
    nearest negative n 1 = ⟨negative, n * 2 ^ (52 - n.log2), -((52 - n.log2 : Nat) : Int)⟩ := by
  have he : max (floorLog2 n 1 - 52) (-1074) = -((52 - n.log2 : Nat) : Int) := by
    rw [floorLog2_one hn]
    omega
  have hscaled : scaled n 1 (-((52 - n.log2 : Nat) : Int)) = (n * 2 ^ (52 - n.log2), 1) := by
    rw [scaled, if_neg (by omega), neg_neg, Int.toNat_natCast]
    rfl
  have hround : roundHalfEven (n * 2 ^ (52 - n.log2)) 1 = n * 2 ^ (52 - n.log2) := by
    simp [roundHalfEven, Nat.mod_one]
  have hmantissa : n * 2 ^ (52 - n.log2) < 2 ^ 53 := by
    calc n * 2 ^ (52 - n.log2) < 2 ^ (n.log2 + 1) * 2 ^ (52 - n.log2) :=
          Nat.mul_lt_mul_of_pos_right Nat.lt_log2_self (Nat.two_pow_pos _)
      _ = 2 ^ 53 := by rw [← Nat.pow_add, show n.log2 + 1 + (52 - n.log2) = 53 by omega]
  unfold nearest
  rw [if_neg (by simpa using hn), he]
  simp only [hscaled, hround]
  rw [if_neg (by simpa using hmantissa.ne)]

theorem truncate_nearest (negative : Bool) (n : Nat) :
    (nearest negative n 1).truncate = if negative then -(rounded n : Int) else rounded n := by
  by_cases hn : n = 0
  · subst hn
    cases negative <;> rfl
  by_cases hlog : n.log2 < 52
  · have hexponent : ¬ 0 ≤ -((52 - n.log2 : Nat) : Int) := by omega
    rw [nearest_of_lt hn hlog, rounded_of_log2_lt hlog, truncate, magnitude, if_neg hexponent,
      neg_neg, Int.toNat_natCast]
    simp [Nat.mul_div_cancel _ (Nat.two_pow_pos _)]
  · obtain ⟨m, k, hnearest, -, hvalue⟩ := nearest_of_le (not_lt.mp hlog) negative
    rw [hnearest, ← hvalue, truncate, magnitude]
    simp

/-- The integer that the nearest double of an integer is. -/
theorem rounds_truncate (n : Int) : Rounds n (nearest (n < 0) n.natAbs 1).truncate := by
  rw [truncate_nearest]
  by_cases hn : n < 0
  · have hneg : n = -(n.natAbs : Int) := by omega
    rw [if_pos (by simpa using hn)]
    nth_rewrite 1 [hneg]
    exact (rounds_rounded n.natAbs).neg
  · have hpos : n = (n.natAbs : Int) := by omega
    rw [if_neg (by simpa using hn)]
    nth_rewrite 1 [hpos]
    exact rounds_rounded n.natAbs

theorem overflows_nearest (hlog : n.log2 ≤ 1022) (negative : Bool) :
    (nearest negative n 1).overflows = false := by
  by_cases hn : n = 0
  · subst hn
    rfl
  by_cases hsmall : n.log2 < 52
  · have hexponent : ¬ 971 < -((52 - n.log2 : Nat) : Int) := by omega
    simp only [nearest_of_lt hn hsmall, overflows, hexponent, decide_false, Bool.and_false]
  · obtain ⟨m, k, hnearest, hk, -⟩ := nearest_of_le (not_lt.mp hsmall) negative
    have hexponent : ¬ 971 < (k : Int) := by omega
    simp only [hnearest, overflows, hexponent, decide_false, Bool.and_false]

/-- A decimal number without a fraction that is not too long for a double. -/
theorem ofDecimal_of_log2_le (hlog : n.log2 ≤ 1022) (negative : Bool) :
    ofDecimal negative n 0 = nearest negative n 1 := by
  unfold ofDecimal
  by_cases hn : n = 0
  · subst hn
    rfl
  · have hlow : ¬ (0 + Int.ofNat (n.log2 * 30103 / 100000) < -700) := by
      rw [Int.ofNat_eq_natCast]
      omega
    have hhigh : ¬ 700 < 0 + Int.ofNat (n.log2 * 30103 / 100000) := by
      rw [Int.ofNat_eq_natCast]
      omega
    have hzero : (n == 0) = false := by simpa using hn
    simp only [hzero, hlow, hhigh, decide_false, Bool.or_self, Bool.false_eq_true, if_false,
      le_refl, if_true, Int.toNat_zero, Nat.pow_eq, pow_zero, mul_one]

/-- An integer of 64 bits is read through a double as the nearest one.  Only the first number
past the range does not fit, and becomes the least one. -/
theorem toInt64_of_rounds {n d : Int} (hn : Decimal.fitsInt64 n = true) (h : Rounds n d) :
    (ofDecimal (n < 0) n.natAbs 0).toInt64 = if d = 2 ^ 63 then -2 ^ 63 else d := by
  rw [Decimal.fitsInt64, Bool.and_eq_true, decide_eq_true_iff, decide_eq_true_iff] at hn
  have hlog : n.natAbs.log2 ≤ 1022 := by
    by_cases hzero : n.natAbs = 0
    · rw [hzero]
      decide
    · have : n.natAbs.log2 < 64 := (Nat.log2_lt hzero).mpr (by omega)
      omega
  have hhigh : d ≤ 2 ^ 63 := h.le_of_le (isExact_pow 63) (by omega)
  have hlow : -d ≤ 2 ^ 63 := h.neg.le_of_le (isExact_pow 63) (by omega)
  rw [ofDecimal_of_log2_le hlog, toInt64, (rounds_truncate n).unique h]
  by_cases hlast : d = 2 ^ 63
  · rw [if_pos hlast, hlast, if_neg (by decide)]
    rfl
  · have hfits : Decimal.fitsInt64 d = true := by
      rw [Decimal.fitsInt64, Bool.and_eq_true, decide_eq_true_iff, decide_eq_true_iff]
      omega
    rw [if_neg hlast, if_pos hfits]

end Netlist.Binary64
