import Mathlib.Data.Int.Order.Basic
import DocTables.Json

/-! The order of binary numbers. A NaN has no place in it, but rounding makes none. -/
namespace DocTables

namespace Binary64

theorem compare?_lt {x y : Binary64} : x.compare? y = some .lt ↔
    x.isNaN = false ∧ y.isNaN = false ∧ x.orderKey < y.orderKey := by
  unfold compare?
  cases x.isNaN <;> cases y.isNaN <;> simp [compare_lt_iff_lt]

theorem isNaN_of_compare? {x y : Binary64} {o : Ordering} (h : x.compare? y = some o) :
    x.isNaN = false ∧ y.isNaN = false := by
  unfold compare? at h
  cases hx : x.isNaN <;> cases hy : y.isNaN <;> simp_all

theorem compare?_comm (x y : Binary64) : y.compare? x = (x.compare? y).map Ordering.swap := by
  unfold compare?
  cases x.isNaN <;> cases y.isNaN <;> simp [← Std.OrientedCmp.eq_swap]

theorem compare?_gt {x y : Binary64} :
    x.compare? y = some .gt ↔ y.compare? x = some .lt := by
  rw [compare?_comm y x]
  cases y.compare? x with
  | none => simp
  | some o => cases o <;> simp

theorem signWeight_eq : signWeight = 9223372036854775808 := rfl

theorem infinityMagnitude_eq : infinityMagnitude = 9218868437227405312 := rfl

section Bits
variable {negative : Bool} {n : Nat}

theorem toNat_bits_ofBits (h : n ≤ infinityMagnitude) :
    (ofBits negative n).bits.toNat = if negative then signWeight + n else n := by
  have hfits : (if negative then signWeight + n else n) < 2 ^ 64 := by
    rw [infinityMagnitude_eq] at h
    rw [signWeight_eq]
    split <;> omega
  exact UInt64.toNat_ofNat_of_lt' hfits

theorem magnitude_ofBits (h : n ≤ infinityMagnitude) : (ofBits negative n).magnitude = n := by
  rw [magnitude, toNat_bits_ofBits h]
  rw [infinityMagnitude_eq] at h
  rw [signWeight_eq]
  split <;> omega

theorem negative_ofBits (h : n ≤ infinityMagnitude) : (ofBits negative n).negative = negative := by
  rw [Binary64.negative, toNat_bits_ofBits h]
  rw [infinityMagnitude_eq] at h
  rw [signWeight_eq]
  cases negative with
  | true => exact decide_eq_true (Nat.le_add_right _ _)
  | false => exact decide_eq_false (by rw [if_neg Bool.false_ne_true]; omega)

theorem isNaN_ofBits (h : n ≤ infinityMagnitude) : (ofBits negative n).isNaN = false := by
  simpa [isNaN, magnitude_ofBits h] using h

end Bits

/-- An integer is nearest to a number, if only to an infinite one. -/
theorem isNaN_ofInt (n : Int) : (ofInt n).isNaN = false := isNaN_ofBits (Nat.min_le_right _ _)

theorem numEq_self {x : Binary64} (h : x.isNaN = false) : x.numEq x = true := by
  simp [numEq, compare?, h]

end Binary64

theorem Finite64.isNaN_val (x : Finite64) : x.val.isNaN = false := by
  have hfinite := x.finite
  simp only [Binary64.isFinite, Binary64.isNaN, decide_eq_true_eq, decide_eq_false_iff_not] at *
  omega

/-- The numbers in documents are no NaN. -/
theorem Json.isNaN_of_number? {j : Json} {x : Binary64} (h : j.number? = some x) :
    x.isNaN = false := by
  cases j with
  | int n =>
    obtain rfl := Option.some.inj h
    exact Binary64.isNaN_ofInt n
  | real y =>
    obtain rfl := Option.some.inj h
    exact y.isNaN_val
  | _ => exact nomatch h

end DocTables
