import Mathlib.Algebra.Order.Field.Basic
import Mathlib.Data.Nat.Log
import Mathlib.Order.Monotone.Basic
import Mathlib.Tactic.Linarith
import DocTables.Proofs.Binary64
import DocTables.Proofs.Binary64.Exact

/-!
The order of binary numbers is the order of their values, and an integer of 64 bits becomes the
number nearest to it. Integers up to `2 ^ 53` keep their values; of larger ones, neighbours may
become the same number.
-/
namespace DocTables.Binary64

/-- The number of least positive numbers that a pattern without its sign bit stands for. -/
def units (magnitude : Nat) : Nat :=
  if magnitude / fractions = 0 then magnitude % fractions
  else (fractions + magnitude % fractions) * 2 ^ (magnitude / fractions - 1)

theorem numerator_eq (x : Binary64) : x.numerator = units x.magnitude := by
  by_cases h : x.magnitude / fractions = 0
  · rw [numerator, significand, scale, exponentField, units, if_pos h, if_pos h, h]
    exact mul_one _
  · rw [numerator, significand, scale, exponentField, units, if_neg h, if_neg h]
    rfl

theorem fractions_eq : fractions = 4503599627370496 := rfl

section Patterns
variable {m q s : Nat}

theorem units_of_lt (h : m < fractions) : units m = m := by
  rw [units, if_pos (Nat.div_eq_of_lt h), Nat.mod_eq_of_lt h]

/-- Up to the next power of two, a pattern grows with the significand. -/
theorem units_add (hq : fractions ≤ q) (hq' : q ≤ 2 * fractions) :
    units (s * fractions + q) = q * 2 ^ s := by
  rw [fractions_eq] at hq hq'
  rcases hq'.lt_or_eq with hlt | rfl
  · have hdiv : (s * fractions + q) / fractions = s + 1 := by rw [fractions_eq]; omega
    have hmod : fractions + (s * fractions + q) % fractions = q := by rw [fractions_eq]; omega
    rw [units, hdiv, hmod, if_neg s.succ_ne_zero, Nat.add_sub_cancel]
  · have hdiv : (s * fractions + 2 * 4503599627370496) / fractions = s + 2 := by
      rw [fractions_eq]; omega
    have hmod : (s * fractions + 2 * 4503599627370496) % fractions = 0 := by
      rw [fractions_eq]; omega
    rw [units, hdiv, hmod, if_neg (by omega), fractions_eq, Nat.add_sub_assoc (by omega), pow_add]
    omega

/-- A pattern of which the exponent field is not zero has a one before the point. -/
theorem exists_binade (h : fractions ≤ m) :
    ∃ s q, fractions ≤ q ∧ q < 2 * fractions ∧ m = s * fractions + q := by
  refine ⟨m / fractions - 1, fractions + m % fractions, ?_⟩
  rw [fractions_eq] at *
  omega

theorem units_lt_succ (m : Nat) : units m < units (m + 1) := by
  rcases lt_or_ge m fractions with h | h
  · rcases (Nat.succ_le_of_lt h).lt_or_eq with hlt | heq
    · rw [units_of_lt h, units_of_lt hlt]
      exact m.lt_succ_self
    · have hpower := units_add (s := 0) le_rfl (by omega : fractions ≤ 2 * fractions)
      rw [zero_mul, zero_add, pow_zero, mul_one] at hpower
      rw [units_of_lt h, show m + 1 = fractions from heq, hpower]
      exact h
  · obtain ⟨s, q, hq, hq', rfl⟩ := exists_binade h
    rw [units_add hq hq'.le, add_assoc, units_add (by omega) hq']
    exact (Nat.mul_lt_mul_right (Nat.two_pow_pos s)).mpr q.lt_succ_self

theorem strictMono_units : StrictMono units := strictMono_nat_of_lt_succ units_lt_succ

theorem units_zero : units 0 = 0 := units_of_lt (by decide)

theorem units_pos : 0 < units m ↔ 0 < m := by
  have hlt := strictMono_units.lt_iff_lt (a := 0) (b := m)
  rwa [units_zero] at hlt

/-- A number is on the grid of a power of two, or below the numbers with 53 digits on it. -/
theorem units_grid (s m : Nat) : (∃ k, units m = k * 2 ^ s) ∨ units m < fractions * 2 ^ s := by
  rcases lt_or_ge m fractions with h | h
  · right
    rw [units_of_lt h]
    exact h.trans_le (Nat.le_mul_of_pos_right _ (Nat.two_pow_pos s))
  · obtain ⟨t, q, hq, hq', rfl⟩ := exists_binade h
    rw [units_add hq hq'.le]
    rcases le_or_gt s t with hst | hst
    · left
      refine ⟨q * 2 ^ (t - s), ?_⟩
      rw [mul_assoc, ← pow_add, Nat.sub_add_cancel hst]
    · right
      calc q * 2 ^ t < 2 * fractions * 2 ^ t := (Nat.mul_lt_mul_right (Nat.two_pow_pos t)).mpr hq'
        _ = fractions * 2 ^ (t + 1) := by rw [pow_succ]; ring
        _ ≤ fractions * 2 ^ s := Nat.mul_le_mul_left _ (Nat.pow_le_pow_right two_pos hst)

end Patterns

section Order
variable {x y : Binary64}

/-- The pattern with its sign grows with the value. -/
theorem orderKey_lt_iff : x.orderKey < y.orderKey ↔ x.value < y.value := by
  have hx := units_pos (m := x.magnitude)
  have hy := units_pos (m := y.magnitude)
  have hlt := strictMono_units.lt_iff_lt (a := x.magnitude) (b := y.magnitude)
  have hgt := strictMono_units.lt_iff_lt (a := y.magnitude) (b := x.magnitude)
  rw [value_eq_div, value_eq_div, div_lt_div_iff_of_pos_right cast_unitsPerOne_pos, Int.cast_lt]
  simp only [orderKey, signedNumerator, numerator_eq]
  split <;> split <;> omega

theorem compare?_lt_iff (hx : x.isNaN = false) (hy : y.isNaN = false) :
    x.compare? y = some .lt ↔ x.value < y.value := by
  rw [compare?_lt, orderKey_lt_iff, and_iff_right hx, and_iff_right hy]

theorem numEq_iff (hx : x.isNaN = false) (hy : y.isNaN = false) :
    x.numEq y = true ↔ x.value = y.value := by
  have hkeys : x.orderKey = y.orderKey ↔ x.value = y.value := by
    rw [le_antisymm_iff, le_antisymm_iff, ← not_lt, ← not_lt, ← not_lt (a := y.value),
      ← not_lt (a := x.value), orderKey_lt_iff, orderKey_lt_iff]
  simp [numEq, compare?, hx, hy, hkeys]

end Order

/-- To round `n` to `x`, which has the last digit of `q`, is as good as to round it to `y`: that is
no nearer, and when it is as near then it is the same or `q` is even. -/
def Prefers (n x y : Int) (q : Nat) : Prop :=
  (n - x).natAbs ≤ (n - y).natAbs ∧ ((n - y).natAbs = (n - x).natAbs → y = x ∨ q % 2 = 0)

section Rounding
variable {den a s : Nat}

/-- Rounding to an integer takes the nearest one, or the even one of the two nearest. -/
theorem roundDiv_cases (num den : Nat) :
    (roundDiv num den = num / den ∧ 2 * (num % den) ≤ den ∧
      (2 * (num % den) = den → roundDiv num den % 2 = 0)) ∨
    (roundDiv num den = num / den + 1 ∧ den ≤ 2 * (num % den) ∧
      (2 * (num % den) = den → roundDiv num den % 2 = 0)) := by
  unfold roundDiv
  dsimp only
  split
  · omega
  · split
    · omega
    · omega

theorem roundDiv_error (hden : 0 < den) (num : Nat) :
    2 * ((num : Int) - (roundDiv num den * den : Nat)).natAbs ≤ den ∧
      (2 * ((num : Int) - (roundDiv num den * den : Nat)).natAbs = den →
        roundDiv num den % 2 = 0) := by
  have hdivision := Nat.div_add_mod' num den
  have hrest := Nat.mod_lt num hden
  rcases roundDiv_cases num den with ⟨heq, hle, heven⟩ | ⟨heq, hle, heven⟩
  · rw [heq] at heven ⊢
    omega
  · have hnext : (num / den + 1) * den = num / den * den + den := Nat.succ_mul _ _
    rw [heq] at heven ⊢
    omega

/-- Different multiples of a number are at least that number apart. -/
theorem prefers_roundDiv (hden : 0 < den) (num k : Nat) :
    Prefers num (roundDiv num den * den : Nat) (k * den : Nat) (roundDiv num den) := by
  obtain ⟨herror, heven⟩ := roundDiv_error hden num
  unfold Prefers
  rcases lt_trichotomy k (roundDiv num den) with hlt | heq | hgt
  · have hapart := Nat.mul_le_mul_right den (Nat.succ_le_of_lt hlt)
    rw [Nat.succ_mul] at hapart
    omega
  · rw [← heq]
    exact ⟨le_rfl, fun _ => .inl rfl⟩
  · have hapart := Nat.mul_le_mul_right den (Nat.succ_le_of_lt hgt)
    rw [Nat.succ_mul] at hapart
    omega

/-- Numbers off the grid are below its least one with 53 digits, which is nearer. -/
theorem prefers_units {num : Nat} (h : fractions * 2 ^ s ≤ num) (m : Nat) :
    Prefers num (roundDiv num (2 ^ s) * 2 ^ s : Nat) (units m) (roundDiv num (2 ^ s)) := by
  have hden := Nat.two_pow_pos s
  rcases units_grid s m with ⟨k, hk⟩ | hbelow
  · rw [hk]
    exact prefers_roundDiv hden num k
  · have hleast := (prefers_roundDiv hden num fractions).1
    unfold Prefers
    omega

/-- The number of least positive numbers in 1 is a power of two, here without its computation. -/
theorem unitsPerOne_eq : ∃ u, u = 1074 ∧ unitsPerOne = 2 ^ u := by
  delta unitsPerOne
  generalize 1074 = u
  exact ⟨u, rfl, rfl⟩

theorem fractions_mul_pow (s : Nat) : fractions * 2 ^ s = 2 ^ (52 + s) := by
  rw [pow_add]
  rfl

/-- An integer is scaled so that it has 53 digits before the point. -/
theorem scaleOf_spec (ha : 0 < a) :
    fractions * 2 ^ scaleOf a 1 ≤ a * unitsPerOne ∧
      a * unitsPerOne < 2 * fractions * 2 ^ scaleOf a 1 := by
  obtain ⟨u, hu, hunits⟩ := unitsPerOne_eq
  have hne : a * unitsPerOne ≠ 0 := by
    rw [hunits]
    exact Nat.mul_ne_zero ha.ne' (Nat.two_pow_pos u).ne'
  have hlog : 52 ≤ (a * unitsPerOne).log2 := by
    rw [Nat.le_log2 hne, hunits]
    calc 2 ^ 52 ≤ 2 ^ u := Nat.pow_le_pow_right two_pos (by omega)
      _ ≤ a * 2 ^ u := Nat.le_mul_of_pos_left _ ha
  have hlow := Nat.log2_self_le hne
  have hhigh := Nat.lt_log2_self (n := a * unitsPerOne)
  obtain ⟨s, hs⟩ := Nat.exists_eq_add_of_le hlog
  have hscale : scaleOf a 1 = s := by
    have hone : Nat.log2 1 = 0 := rfl
    have hdiv : ¬ a * unitsPerOne / 2 ^ s < fractions := by
      rw [not_lt, Nat.le_div_iff_mul_le (Nat.two_pow_pos s), fractions_mul_pow, ← hs]
      exact hlow
    have hsub : (a * unitsPerOne).log2 - Nat.log2 1 - 52 = s := by omega
    rw [scaleOf, hsub, one_mul, Nat.pow_eq, if_neg hdiv]
  rw [hscale, mul_assoc, fractions_mul_pow, ← pow_succ', ← hs]
  exact ⟨hlow, hhigh⟩

theorem scaleOf_le (ha : 0 < a) (h : a ≤ 2 ^ 64) : scaleOf a 1 ≤ 1086 := by
  obtain ⟨u, hu, hunits⟩ := unitsPerOne_eq
  have hpow : 2 ^ (52 + scaleOf a 1) ≤ 2 ^ (64 + u) := by
    calc 2 ^ (52 + scaleOf a 1) = fractions * 2 ^ scaleOf a 1 := (fractions_mul_pow _).symm
      _ ≤ a * 2 ^ u := hunits ▸ (scaleOf_spec ha).1
      _ ≤ 2 ^ 64 * 2 ^ u := Nat.mul_le_mul_right _ h
      _ = 2 ^ (64 + u) := (pow_add 2 64 u).symm
  have hle := (Nat.pow_le_pow_iff_right one_lt_two).mp hpow
  omega

/-- The significand of an integer, or the power of two above it. -/
theorem roundDiv_mem (ha : 0 < a) :
    fractions ≤ roundDiv (a * unitsPerOne) (2 ^ scaleOf a 1) ∧
      roundDiv (a * unitsPerOne) (2 ^ scaleOf a 1) ≤ 2 * fractions := by
  obtain ⟨hlow, hhigh⟩ := scaleOf_spec ha
  have hle := (Nat.le_div_iff_mul_le (Nat.two_pow_pos (scaleOf a 1))).mpr hlow
  have hlt := (Nat.div_lt_iff_lt_mul (Nat.two_pow_pos (scaleOf a 1))).mpr hhigh
  have hcases := roundDiv_cases (a * unitsPerOne) (2 ^ scaleOf a 1)
  omega

/-- The pattern that an integer of 64 bits is rounded to is not capped. -/
theorem pattern_lt (ha : 0 < a) (h : a ≤ 2 ^ 64) :
    scaleOf a 1 * fractions + roundDiv (a * unitsPerOne) (2 ^ scaleOf a 1) <
      infinityMagnitude := by
  have hscale := scaleOf_le ha h
  have hround := (roundDiv_mem ha).2
  rw [infinityMagnitude]
  rw [fractions_eq] at *
  omega

theorem roundMagnitude_eq (ha : 0 < a) (h : a ≤ 2 ^ 64) :
    roundMagnitude a 1 =
      scaleOf a 1 * fractions + roundDiv (a * unitsPerOne) (2 ^ scaleOf a 1) := by
  rw [roundMagnitude, one_mul, Nat.pow_eq]
  exact Nat.min_eq_left (pattern_lt ha h).le

theorem roundMagnitude_zero : roundMagnitude 0 1 = 0 := by
  rw [roundMagnitude, scaleOf, zero_mul]
  decide

theorem roundMagnitude_lt (h : a ≤ 2 ^ 64) : roundMagnitude a 1 < infinityMagnitude := by
  rcases a.eq_zero_or_pos with rfl | ha
  · rw [roundMagnitude_zero]
    decide
  · rw [roundMagnitude_eq ha h]
    exact pattern_lt ha h

theorem units_roundMagnitude (ha : 0 < a) (h : a ≤ 2 ^ 64) :
    units (roundMagnitude a 1) =
      roundDiv (a * unitsPerOne) (2 ^ scaleOf a 1) * 2 ^ scaleOf a 1 := by
  obtain ⟨hlow, hhigh⟩ := roundDiv_mem ha
  rw [roundMagnitude_eq ha h, units_add hlow hhigh]

theorem prefers_roundMagnitude (h : a ≤ 2 ^ 64) (m : Nat) :
    Prefers (a * unitsPerOne : Nat) (units (roundMagnitude a 1)) (units m)
      (roundMagnitude a 1) := by
  rcases a.eq_zero_or_pos with rfl | ha
  · rw [roundMagnitude_zero, units_zero, zero_mul, Prefers]
    omega
  · have heven : roundMagnitude a 1 % 2 =
        roundDiv (a * unitsPerOne) (2 ^ scaleOf a 1) % 2 := by
      rw [roundMagnitude_eq ha h, fractions_eq]
      omega
    rw [Prefers, units_roundMagnitude ha h, heven]
    exact prefers_units (scaleOf_spec ha).1 m

theorem roundDiv_of_dvd {num : Nat} (hden : 0 < den) (h : den ∣ num) :
    roundDiv num den * den = num := by
  have hnearest := (prefers_roundDiv hden num (num / den)).1
  rw [Nat.div_mul_cancel h] at hnearest
  omega

/-- Up to `2 ^ 53` the grid is not coarser than the integers. -/
theorem pow_dvd_mul_pow {u : Nat} (h : a ≤ 2 ^ 53) (hlow : 2 ^ (52 + s) ≤ a * 2 ^ u) :
    2 ^ s ∣ a * 2 ^ u := by
  rcases le_or_gt s u with hle | hgt
  · exact (pow_dvd_pow 2 hle).mul_left a
  · -- Then the integer is `2 ^ 53`, the first one on the next grid.
    have hhigh : a * 2 ^ u ≤ 2 ^ (52 + s) := by
      calc a * 2 ^ u ≤ 2 ^ 53 * 2 ^ u := Nat.mul_le_mul_right _ h
        _ = 2 ^ (53 + u) := (pow_add 2 53 u).symm
        _ ≤ 2 ^ (52 + s) := Nat.pow_le_pow_right two_pos (by omega)
    rw [le_antisymm hhigh hlow]
    exact pow_dvd_pow 2 (Nat.le_add_left s 52)

theorem units_roundMagnitude_of_le (h : a ≤ 2 ^ 53) :
    units (roundMagnitude a 1) = a * unitsPerOne := by
  rcases a.eq_zero_or_pos with rfl | ha
  · rw [roundMagnitude_zero, units_zero, zero_mul]
  · obtain ⟨u, -, hunits⟩ := unitsPerOne_eq
    have hlow := (scaleOf_spec ha).1
    rw [fractions_mul_pow, hunits] at hlow
    rw [units_roundMagnitude ha (h.trans (by decide)), hunits]
    exact roundDiv_of_dvd (Nat.two_pow_pos _) (pow_dvd_mul_pow h hlow)

end Rounding

/-- The number is finite, no finite number is nearer to the integer, and when another one is as near
its pattern is even. -/
structure IsNearest (n : Int) (x : Binary64) : Prop where
  finite : x.isFinite = true
  le : ∀ y : Binary64, y.isFinite = true → |(n : ℚ) - x.value| ≤ |(n : ℚ) - y.value|
  even : ∀ y : Binary64, y.isFinite = true → |(n : ℚ) - y.value| = |(n : ℚ) - x.value| →
    y.value = x.value ∨ x.magnitude % 2 = 0

/-- Distances from an integer, counted in least positive numbers. -/
theorem abs_sub_value (n : Int) (x : Binary64) :
    |(n : ℚ) - x.value| = ((n * unitsPerOne - x.signedNumerator).natAbs : ℚ) / unitsPerOne := by
  have hunits := cast_unitsPerOne_pos
  have hquotient : (n : ℚ) - x.value =
      ((n * unitsPerOne - x.signedNumerator : Int) : ℚ) / unitsPerOne := by
    rw [value_eq_div, eq_div_iff hunits.ne', sub_mul, div_mul_cancel₀ _ hunits.ne']
    push_cast
    rfl
  rw [hquotient, abs_div, abs_of_pos hunits, Nat.cast_natAbs, Int.cast_abs]

section Integers
variable {n m : Int} {x y : Binary64}

theorem magnitude_ofInt (h : n.natAbs ≤ 2 ^ 64) :
    (ofInt n).magnitude = roundMagnitude n.natAbs 1 :=
  magnitude_ofBits (roundMagnitude_lt h).le

theorem signedNumerator_ofInt (h : n.natAbs ≤ 2 ^ 64) :
    (ofInt n).signedNumerator = if n < 0 then -(units (roundMagnitude n.natAbs 1) : Int)
      else units (roundMagnitude n.natAbs 1) := by
  have hnegative : (ofInt n).negative = decide (n < 0) := negative_ofBits (roundMagnitude_lt h).le
  rw [signedNumerator, numerator_eq, magnitude_ofInt h, hnegative]
  simp only [decide_eq_true_eq]

theorem mul_unitsPerOne (n : Int) : n * unitsPerOne =
    if n < 0 then -((n.natAbs * unitsPerOne : Nat) : Int) else (n.natAbs * unitsPerOne : Nat) := by
  split
  next hneg => rw [Nat.cast_mul, Int.ofNat_natAbs_of_nonpos hneg.le, neg_mul, neg_neg]
  next hpos => rw [Nat.cast_mul, Int.natAbs_of_nonneg (not_lt.mp hpos)]

/-- A number with the other sign is no nearer than its absolute value, nor than zero. -/
theorem prefers_ofInt (h : n.natAbs ≤ 2 ^ 64) (y : Binary64) :
    Prefers (n * unitsPerOne) (ofInt n).signedNumerator y.signedNumerator (ofInt n).magnitude := by
  have hnearest := prefers_roundMagnitude h y.magnitude
  have hzero := prefers_roundMagnitude h 0
  rw [units_zero] at hzero
  rw [mul_unitsPerOne, signedNumerator_ofInt h, magnitude_ofInt h, signedNumerator, numerator_eq]
  generalize n.natAbs * unitsPerOne = num at *
  unfold Prefers at *
  split <;> split <;> omega

/-- An integer of 64 bits, with a sign or without, becomes the number nearest to it. -/
theorem isNearest_ofInt (h : n.natAbs ≤ 2 ^ 64) : IsNearest n (ofInt n) := by
  have hunits := cast_unitsPerOne_pos
  constructor
  · simpa [isFinite, magnitude_ofInt h] using roundMagnitude_lt h
  · intro y _
    rw [abs_sub_value, abs_sub_value, div_le_div_iff_of_pos_right hunits, Nat.cast_le]
    exact (prefers_ofInt h y).1
  · intro y _ htie
    rw [abs_sub_value, abs_sub_value, div_left_inj' hunits.ne', Nat.cast_inj] at htie
    rw [value_eq_div, value_eq_div, div_left_inj' hunits.ne', Int.cast_inj]
    exact (prefers_ofInt h y).2 htie

/-- The greater of two numbers is nearer only from their middle on. -/
theorem le_two_mul_of_nearer {r p q : ℚ} (hlt : q < p) (h : |r - p| ≤ |r - q|) :
    p + q ≤ 2 * r := by
  by_contra hbelow
  have hq : |r - q| < p - r := abs_lt.mpr ⟨by linarith, by linarith⟩
  have hp : p - r ≤ |r - p| := by
    rw [abs_sub_comm]
    exact le_abs_self _
  linarith

theorem IsNearest.le_of_lt (hx : IsNearest n x) (hy : IsNearest m y) (h : n < m) :
    x.value ≤ y.value := by
  by_contra hgt
  rw [not_le] at hgt
  have hn := le_two_mul_of_nearer hgt (hx.le y hy.finite)
  have hm : -y.value + -x.value ≤ 2 * -(m : ℚ) := by
    apply le_two_mul_of_nearer (neg_lt_neg hgt)
    rw [neg_sub_neg, neg_sub_neg, abs_sub_comm, abs_sub_comm x.value]
    exact hy.le x hx.finite
  have hlt : (n : ℚ) < m := Int.cast_lt.mpr h
  linarith

theorem value_ofInt_mono (hn : n.natAbs ≤ 2 ^ 64) (hm : m.natAbs ≤ 2 ^ 64) (h : n ≤ m) :
    (ofInt n).value ≤ (ofInt m).value := by
  rcases h.eq_or_lt with rfl | hlt
  · exact le_rfl
  · exact (isNearest_ofInt hn).le_of_lt (isNearest_ofInt hm) hlt

theorem value_ofInt (h : n.natAbs ≤ 2 ^ 53) : (ofInt n).value = n := by
  rw [value_eq_int, signedNumerator_ofInt (h.trans (by decide)), units_roundMagnitude_of_le h,
    mul_unitsPerOne]

end Integers

end DocTables.Binary64
