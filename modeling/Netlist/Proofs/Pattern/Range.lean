import Mathlib
import Netlist.Pattern.Parse

/-!
# Ranges at the limits of 64 bits

The values of a range are counted in words of 64 bits.  For bounds that are not negative no
operation on the way leaves the words (`Stretch.Exact`): a distance is less than 2⁶³, and the
values stay between the bounds.  So the loop stops at the last bound (`toList_countTo`), and
what is read is what unbounded numbers would give (`readRange_eq`).
-/

namespace Netlist.Pattern

/-- The numbers from `hi` to `lo`, up or down by one. -/
def rangeItems (hi lo : Nat) : List Part :=
  if lo ≤ hi then (List.range (hi - lo + 1)).map fun k => .number (Int.ofNat hi - Int.ofNat k)
  else (List.range (lo - hi + 1)).map fun k => .number (Int.ofNat hi + Int.ofNat k)

/-- A range has one value more than its ends are apart. -/
theorem length_rangeItems (hi lo : Nat) :
    (rangeItems hi lo).length = ((hi : Int) - lo).natAbs + 1 := by
  rw [rangeItems]
  split
  · rw [List.length_map, List.length_range]
    omega
  · rw [List.length_map, List.length_range]
    omega

/-! ## The bounds -/

theorem lt_of_readInt64? {cs : List Char} {n : Int} (h : Decimal.readInt64? cs = some n) :
    n < 2 ^ 63 := by
  have hfits := (Option.filter_eq_some_iff.mp h).2
  simp only [Decimal.fitsInt64, Bool.and_eq_true, decide_eq_true_eq] at hfits
  omega

theorem lt_of_readBounds? {first second : List Char} {hi lo : Nat}
    (h : readBounds? first second = some (hi, lo)) : hi < 2 ^ 63 ∧ lo < 2 ^ 63 := by
  rw [readBounds?] at h
  split at h
  · next n m hn hm =>
    have hhi := lt_of_readInt64? hn
    have hlo := lt_of_readInt64? hm
    split at h
    · cases h
    · cases h
      omega
  · cases h

/-- Differences of numbers that are not negative fit. -/
theorem toInt_sub_of_nonneg {a b : Int64} (ha : 0 ≤ a.toInt) (hb : 0 ≤ b.toInt) :
    (a - b).toInt = a.toInt - b.toInt := by
  have ha' := a.toInt_lt
  have hb' := b.toInt_lt
  rw [Int64.toInt_sub]
  exact Int.bmod_eq_of_le (by omega) (by omega)

theorem Options.limit_lt {o : Options} (h : o.maxAtoms < 2 ^ 63) : o.limit < 2 ^ 63 := by
  rw [limit]
  split
  · decide
  · omega

/-! ## The loop -/

theorem Direction.toInt_step (d : Direction) : d.step.toInt = 1 ∨ d.step.toInt = -1 := by
  cases d with
  | up => exact .inl rfl
  | down => exact .inr rfl

/-- Before the last value the next one is between the bounds, so no step wraps around. -/
theorem toInt_add_step {d : Direction} {v last : Int64} {n : Nat} (hv : 0 ≤ v.toInt)
    (h : 0 ≤ last.toInt) (hlast : last.toInt = v.toInt + d.step.toInt * (n + 1)) :
    (v + d.step).toInt = v.toInt + d.step.toInt ∧ 0 ≤ v.toInt + d.step.toInt ∧ v ≠ last := by
  have hlt := v.toInt_lt
  have hlt' := last.toInt_lt
  rw [Int64.toInt_add]
  rcases d.toInt_step with hs | hs <;> rw [hs] at hlast ⊢
  · refine ⟨Int.bmod_eq_of_le (by omega) (by omega), by omega, ?_⟩
    rintro rfl
    omega
  · refine ⟨Int.bmod_eq_of_le (by omega) (by omega), by omega, ?_⟩
    rintro rfl
    omega

/-- Counting gives the values one step apart. -/
theorem toList_countTo {d : Direction} {last : Int64} (h : 0 ≤ last.toInt) (n : Nat) {v : Int64}
    (hv : 0 ≤ v.toInt) (hlast : last.toInt = v.toInt + d.step.toInt * n) (items : Array Part) :
    (countTo d last v items).toList = items.toList ++
      (List.range (n + 1)).map fun k => .number (v.toInt + d.step.toInt * k) := by
  induction n generalizing v items with
  | zero =>
      have heq : v = last := Int64.toInt_inj.mp (by simpa using hlast.symm)
      rw [countTo, if_pos heq]
      simp
  | succ n ih =>
      obtain ⟨hnext, hlow, hne⟩ := toInt_add_step hv h (by exact_mod_cast hlast)
      rw [countTo, if_neg hne, ih (hnext ▸ hlow) (by rw [hnext, hlast]; push_cast; ring), hnext,
        List.range_succ_eq_map (n := n + 1)]
      simp [mul_add, add_assoc, add_comm d.step.toInt]

/-! ## The way between two bounds -/

/-- Counting through a range computes with words as with unbounded numbers: both differences,
the number of values, and every step from a value that is not the last. -/
structure Stretch.Exact (hi lo : Int64) : Prop where
  up : (lo - hi).toInt = lo.toInt - hi.toInt
  down : (hi - lo).toInt = hi.toInt - lo.toInt
  count : ((between hi lo).count.toNat : Int) = (between hi lo).distance.toInt + 1
  step : ∀ v : Int64,
    .number v.toInt ∈ (countTo (between hi lo).direction lo hi #[]).toList → v ≠ lo →
    (v + (between hi lo).direction.step).toInt = v.toInt + (between hi lo).direction.step.toInt

section

variable {hi lo : Nat} (hhi : hi < 2 ^ 63) (hlo : lo < 2 ^ 63)
include hhi hlo

theorem Stretch.between_spec :
    (between (.ofNat hi) (.ofNat lo)).distance.toInt = ((hi : Int) - lo).natAbs ∧
      (lo : Int) = hi + (between (.ofNat hi) (.ofNat lo)).direction.step.toInt *
        ((hi : Int) - lo).natAbs := by
  have hfirst := Int64.toInt_ofNat_of_lt hhi
  have hlast := Int64.toInt_ofNat_of_lt hlo
  have hup : Direction.up.step.toInt = 1 := rfl
  have hdown : Direction.down.step.toInt = -1 := rfl
  rw [between]
  split
  · next h =>
    rw [Int64.lt_iff_toInt_lt] at h
    rw [hdown, toInt_sub_of_nonneg (by omega) (by omega)]
    omega
  · next h =>
    rw [Int64.lt_iff_toInt_lt] at h
    rw [hup, toInt_sub_of_nonneg (by omega) (by omega)]
    omega

/-- A distance below a limit of 64 bits has a successor. -/
theorem Stretch.toInt_distance_add_one {limit : Nat} (hlimit : limit < 2 ^ 63)
    (h : ((hi : Int) - lo).natAbs < limit) :
    ((between (.ofNat hi) (.ofNat lo)).distance + 1).toInt = ((hi : Int) - lo).natAbs + 1 := by
  have hone : (1 : Int64).toInt = 1 := rfl
  rw [Int64.toInt_add, (between_spec hhi hlo).1, hone]
  exact Int.bmod_eq_of_le (by omega) (by omega)

/-- The number of values does not wrap. -/
theorem Stretch.toNat_count :
    (between (.ofNat hi) (.ofNat lo)).count.toNat = ((hi : Int) - lo).natAbs + 1 := by
  have hdist := (between_spec hhi hlo).1
  have hword :
      (between (.ofNat hi) (.ofNat lo)).distance.toUInt64.toNat = ((hi : Int) - lo).natAbs := by
    have hle : 0 ≤ (between (.ofNat hi) (.ofNat lo)).distance := by
      rw [Int64.le_iff_toInt_le, hdist]
      exact Int.natCast_nonneg _
    rw [Int64.toNat_toUInt64_of_le hle, Int64.toNatClampNeg, hdist, Int.toNat_natCast]
  rw [count, UInt64.toNat_add, hword, UInt64.toNat_one, Nat.mod_eq_of_lt (by omega)]

/-- Counting from end to end gives the values of the range. -/
theorem toList_countTo_between (items : Array Part) :
    (countTo (Stretch.between (.ofNat hi) (.ofNat lo)).direction (.ofNat lo) (.ofNat hi)
        items).toList =
      items.toList ++ rangeItems hi lo := by
  have hfirst := Int64.toInt_ofNat_of_lt hhi
  have hlast := Int64.toInt_ofNat_of_lt hlo
  have hspec := (Stretch.between_spec hhi hlo).2
  rw [toList_countTo (by omega) _ (by omega) (by rw [hfirst, hlast]; exact hspec), hfirst,
    rangeItems]
  congr 1
  have hstep := (Stretch.between (.ofNat hi) (.ofNat lo)).direction.toInt_step
  generalize (Stretch.between (.ofNat hi) (.ofNat lo)).direction.step.toInt = s at hstep hspec ⊢
  split
  · rw [show ((hi : Int) - lo).natAbs = hi - lo by omega]
    refine List.map_congr_left fun k hk => congrArg Part.number ?_
    rw [List.mem_range] at hk
    rcases hstep with rfl | rfl
    · simp; omega
    · simp; omega
  · rw [show ((hi : Int) - lo).natAbs = lo - hi by omega]
    refine List.map_congr_left fun k hk => congrArg Part.number ?_
    rw [List.mem_range] at hk
    rcases hstep with rfl | rfl
    · simp
    · simp; omega

theorem Stretch.exact : Exact (.ofNat hi) (.ofNat lo) := by
  have hfirst := Int64.toInt_ofNat_of_lt hhi
  have hlast := Int64.toInt_ofNat_of_lt hlo
  obtain ⟨hdist, hspec⟩ := between_spec hhi hlo
  refine ⟨toInt_sub_of_nonneg (by omega) (by omega), toInt_sub_of_nonneg (by omega) (by omega), ?_,
    fun v hv hne => ?_⟩
  · rw [toNat_count hhi hlo, hdist, Nat.cast_add, Nat.cast_one]
  · rw [toList_countTo (by omega) _ (by omega) (by rw [hfirst, hlast]; exact hspec), hfirst] at hv
    obtain ⟨k, hk, hv⟩ : ∃ k ≤ ((hi : Int) - lo).natAbs,
        hi + (between (.ofNat hi) (.ofNat lo)).direction.step.toInt * k = v.toInt := by
      simpa using hv
    have hne' : v.toInt ≠ lo := fun h => hne (Int64.toInt_inj.mp (h.trans hlast.symm))
    rw [Int64.toInt_add]
    rcases (between (.ofNat hi) (.ofNat lo)).direction.toInt_step with hs | hs <;>
      rw [hs] at hspec hv ⊢ <;> exact Int.bmod_eq_of_le (by omega) (by omega)

/-- A range is refused when it has more values than the limit, and gives them all otherwise. -/
theorem countRange_eq (limit : Nat) (content : String) (start stop : Nat) :
    countRange limit content (.ofNat hi) (.ofNat lo) start stop =
      if limit < ((hi : Int) - lo).natAbs + 1 then
        (none, [⟨.rangeTooLarge content (((hi : Int) - lo).natAbs + 1) limit, start, stop⟩])
      else
        (some { kind := .range, items := rangeItems hi lo, start := start, stop := stop }, []) := by
  simp only [countRange, (Stretch.between_spec hhi hlo).1, Stretch.toNat_count hhi hlo,
    toList_countTo_between hhi hlo, Nat.cast_le, Nat.lt_succ_iff]
  rfl

end

end Netlist.Pattern
