import Mathlib.Data.Rat.Cast.Order
import Mathlib.Tactic.FieldSimp
import Mathlib.Tactic.Ring
import DocTables.Binary64.Scaling
import DocTables.Value

/-!
The exact values of binary numbers. A finite number has an integer as its value just when it is read
as that integer. Cutting an integer to 64 bits keeps it when it is one of these, and otherwise takes
the nearest of them.
-/
namespace DocTables

namespace Binary64
variable {x : Binary64} {k : Int}

/-- What a finite pattern stands for, sign aside: its fraction, with a one before the point unless
the exponent field is zero, times a power of two whose exponent has a bias of 1023. -/
def absValue (x : Binary64) : ℚ :=
  if x.exponentField = 0 then (x.fraction / 2 ^ 52 : ℚ) * 2 ^ (-1022 : Int)
  else (1 + x.fraction / 2 ^ 52 : ℚ) * 2 ^ ((x.exponentField : Int) - 1023)

/-- The number that the bits of a finite pattern stand for. -/
def value (x : Binary64) : ℚ := if x.negative then -x.absValue else x.absValue

theorem cast_two_pow (n : Nat) : ((Nat.pow 2 n : Nat) : ℚ) = 2 ^ n := Nat.cast_pow 2 n

theorem cast_unitsPerOne : (unitsPerOne : ℚ) = 2 ^ 52 * 2 ^ 1022 := by
  have hsum : 1074 = 52 + 1022 := rfl
  rw [← pow_add, ← hsum]
  -- The exponent becomes a variable, so that the power is not computed.
  delta unitsPerOne
  generalize 1074 = n
  exact cast_two_pow n

theorem cast_unitsPerOne_ne_zero : (unitsPerOne : ℚ) ≠ 0 := by
  rw [cast_unitsPerOne]
  exact mul_ne_zero (pow_ne_zero _ two_ne_zero) (pow_ne_zero _ two_ne_zero)

theorem cast_unitsPerOne_pos : (0 : ℚ) < unitsPerOne :=
  lt_of_le_of_ne (Nat.cast_nonneg _) cast_unitsPerOne_ne_zero.symm

/-- The numerator counts the least positive number. -/
theorem cast_numerator (x : Binary64) : (x.numerator : ℚ) = x.absValue * unitsPerOne := by
  have hfractions : (fractions : ℚ) = 2 ^ 52 := cast_two_pow 52
  rw [numerator, significand, scale, absValue, cast_unitsPerOne, Nat.cast_mul, cast_two_pow]
  split
  next hzero =>
    rw [hzero, zpow_neg, zpow_ofNat]
    field_simp
    simp
  next hpos =>
    obtain ⟨s, hs⟩ := Nat.exists_eq_succ_of_ne_zero hpos
    have hexponent : (x.exponentField : Int) - 1023 = s - (1022 : Nat) := by omega
    rw [hexponent, zpow_sub₀ two_ne_zero, zpow_natCast, zpow_natCast, hs, Nat.succ_sub_one,
      Nat.cast_add, hfractions]
    field_simp

/-- The numerator with the sign of the number. -/
def signedNumerator (x : Binary64) : Int := if x.negative then -x.numerator else x.numerator

theorem value_eq_div (x : Binary64) : x.value = x.signedNumerator / unitsPerOne := by
  rw [eq_div_iff cast_unitsPerOne_ne_zero, value, signedNumerator]
  split
  · rw [neg_mul, ← cast_numerator, Int.cast_neg, Int.cast_natCast]
  · rw [← cast_numerator, Int.cast_natCast]

theorem value_eq_int : x.value = k ↔ x.signedNumerator = k * unitsPerOne := by
  rw [value_eq_div, div_eq_iff cast_unitsPerOne_ne_zero]
  exact_mod_cast Iff.rfl

theorem unitsPerOne_dvd : (unitsPerOne : Int) ∣ x.signedNumerator ↔
    x.numerator % unitsPerOne = 0 := by
  rw [← Nat.dvd_iff_mod_eq_zero, ← Int.natCast_dvd_natCast, signedNumerator]
  split
  · exact Int.dvd_neg
  · exact Iff.rfl

theorem signedNumerator_ediv (h : (unitsPerOne : Int) ∣ x.signedNumerator) :
    x.signedNumerator / unitsPerOne =
      if x.negative then -((x.numerator / unitsPerOne : Nat) : Int)
      else (x.numerator / unitsPerOne : Nat) := by
  rw [Int.natCast_ediv, signedNumerator]
  split
  next hneg =>
    rw [signedNumerator, if_pos hneg] at h
    exact Int.neg_ediv_of_dvd (Int.dvd_neg.mp h)
  next => rfl

theorem toInt?_eq (x : Binary64) : x.toInt? =
    if x.isFinite = true ∧ (unitsPerOne : Int) ∣ x.signedNumerator then
      some (x.signedNumerator / unitsPerOne) else none := by
  have hread : x.toInt? = if x.isFinite = true then
      if x.numerator % unitsPerOne = 0 then
        some (if x.negative then -((x.numerator / unitsPerOne : Nat) : Int)
          else (x.numerator / unitsPerOne : Nat))
      else none
    else none := rfl
  simp only [hread, ite_and, unitsPerOne_dvd]
  split
  · split
    next h => rw [signedNumerator_ediv (unitsPerOne_dvd.mpr h)]
    next => rfl
  · rfl

/-- A number is read as the integer that is its value. -/
theorem toInt?_eq_some : x.toInt? = some k ↔ x.isFinite = true ∧ x.value = k := by
  have hunits : (unitsPerOne : Int) ≠ 0 := by exact_mod_cast cast_unitsPerOne_ne_zero
  rw [value_eq_int, toInt?_eq]
  constructor
  · intro h
    split at h
    next hread =>
      obtain rfl := Option.some.inj h
      exact ⟨hread.1, (Int.ediv_mul_cancel hread.2).symm⟩
    next => exact nomatch h
  · rintro ⟨hfinite, hk⟩
    rw [if_pos ⟨hfinite, hk ▸ dvd_mul_left _ _⟩, hk, Int.mul_ediv_cancel _ hunits]

end Binary64

theorem toInt_clampInt64 (n : Int) : (clampInt64 n).toInt = max (-2 ^ 63) (min n (2 ^ 63 - 1)) := by
  have hmin : Int64.minValue.toInt = -2 ^ 63 := by decide
  have hmax : Int64.maxValue.toInt = 2 ^ 63 - 1 := by decide
  unfold clampInt64
  split
  next hlow => omega
  next hlow =>
    split
    next hhigh => omega
    next hhigh =>
      rw [Int64.toInt_ofInt_of_le (by omega) (by omega)]
      omega

end DocTables
