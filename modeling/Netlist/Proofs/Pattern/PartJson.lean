import Netlist.Pattern.PartCodec
import Netlist.Proofs.Json.Scalars

/-!
# Parts in JSON

A part is written as a bare text or number.  Texts come back as they were.  A number is read
through a double: what comes back is the double nearest to it (`Binary64.Rounds`), which is the
number itself exactly when it has at most 53 binary digits before its zeros.  The numbers that
round to 2⁶³ do not fit any more and come back as the least number of 64 bits.
-/

namespace Netlist.Part

theorem readJson_literal (s : String) :
    readJson (literal s).toJson.compact = .ok (.literal s) := by
  rw [show (literal s).toJson = .str s from rfl, readJson, Json.read_compact_str]
  rfl

theorem readJson_number {n : Int} (hn : Decimal.fitsInt64 n = true) :
    readJson (number n).toJson.compact =
      .ok (.number (Binary64.ofDecimal (n < 0) n.natAbs 0).toInt64) := by
  have hlength : n.natAbs < 10 ^ 21 := by
    rw [Decimal.fitsInt64, Bool.and_eq_true, decide_eq_true_iff, decide_eq_true_iff] at hn
    omega
  rw [toJson, readJson, Json.read_compact_int hlength]
  rfl

/-- What a number is read as, in terms of the double nearest to it. -/
theorem readJson_number_of_rounds {n d : Int} (hn : Decimal.fitsInt64 n = true)
    (h : Binary64.Rounds n d) : readJson (number n).toJson.compact =
      .ok (.number (if d = 2 ^ 63 then -2 ^ 63 else d)) := by
  rw [readJson_number hn, Binary64.toInt64_of_rounds hn h]

/-- A number is read as itself exactly when it is a double. -/
theorem readJson_number_eq_iff {n : Int} (hn : Decimal.fitsInt64 n = true) :
    readJson (number n).toJson.compact = .ok (.number n) ↔ Binary64.IsExact n := by
  have hround := Binary64.rounds_truncate n
  generalize (Binary64.nearest (n < 0) n.natAbs 1).truncate = d at hround
  rw [readJson_number_of_rounds hn hround, Except.ok.injEq, number.injEq, ← hround.eq_iff]
  rw [Decimal.fitsInt64, Bool.and_eq_true, decide_eq_true_iff, decide_eq_true_iff] at hn
  by_cases hlast : d = 2 ^ 63
  · -- the least number is a double itself, so it is not what rounds past the range
    have hne : n ≠ -2 ^ 63 := by
      rintro rfl
      have := hround.unique (.of_isExact (Binary64.isExact_pow 63).neg)
      omega
    rw [if_pos hlast]
    omega
  · rw [if_neg hlast]

/-- Every literal is read as it was written.  Every number of 64 bits is read as the one double
nearest to it, and so as itself exactly when it is a double; numbers up to 2⁵³ are. -/
theorem readJson_rounds_numbers (s : String) (n : Int) (hn : Decimal.fitsInt64 n = true) :
    readJson (literal s).toJson.compact = .ok (.literal s) ∧
    ∃ d, (∀ x, Binary64.Rounds n x ↔ x = d) ∧
      readJson (number n).toJson.compact = .ok (.number (if d = 2 ^ 63 then -2 ^ 63 else d)) ∧
      (readJson (number n).toJson.compact = .ok (.number n) ↔ Binary64.IsExact n) ∧
      (n.natAbs ≤ 2 ^ 53 → readJson (number n).toJson.compact = .ok (.number n)) := by
  have hround := Binary64.rounds_truncate n
  refine ⟨readJson_literal s, _, fun x => ⟨fun hx => hx.unique hround, fun hx => hx ▸ hround⟩,
    readJson_number_of_rounds hn hround, readJson_number_eq_iff hn, fun hsmall => ?_⟩
  exact (readJson_number_eq_iff hn).mpr (Binary64.isExact_of_natAbs_le hsmall)

/-- The largest number is no double, and comes back as the least one. -/
theorem readJson_rounds_numbers_largest :
    Decimal.fitsInt64 (2 ^ 63 - 1) = true ∧ ¬ Binary64.IsExact (2 ^ 63 - 1) ∧
      readJson (number (2 ^ 63 - 1)).toJson.compact = .ok (.number (-2 ^ 63)) := by
  have hfits : Decimal.fitsInt64 (2 ^ 63 - 1) = true := by decide
  obtain ⟨d, hround, hread, hexact, -⟩ := (readJson_rounds_numbers "" (2 ^ 63 - 1) hfits).2
  have hd : d = 2 ^ 63 := ((hround _).mp (Binary64.rounds_truncate (2 ^ 63 - 1))).symm
  rw [if_pos hd] at hread
  refine ⟨hfits, fun h => ?_, hread⟩
  have hsame := hexact.mpr h
  rw [hread] at hsame
  cases hsame

/-- The first number that is no double comes back as another one. -/
theorem readJson_changes_number :
    readJson (number (2 ^ 53 + 1)).toJson.compact = .ok (.number (2 ^ 53)) := by
  rw [readJson_number (by decide)]
  congr 2

end Netlist.Part
