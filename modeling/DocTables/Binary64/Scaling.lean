import DocTables.Binary64

/-!
Numbers times powers of ten, in binary: the power is rounded first, then the product or the
quotient.
-/
namespace DocTables.Binary64

/-- The finite number as a ratio of naturals, sign aside, over `2 ^ 1074`. -/
def numerator (x : Binary64) : Nat := x.significand * Nat.pow 2 x.scale

def powerOfTen (n : Nat) : Binary64 := ofRatio false (Nat.pow 10 n) 1

def timesPower (x : Binary64) (n : Nat) : Binary64 :=
  ofRatio x.negative (x.numerator * (powerOfTen n).numerator) (Nat.pow 2 2148)

def overPower (x : Binary64) (n : Nat) : Binary64 :=
  ofRatio x.negative x.numerator (powerOfTen n).numerator

/-- Divides by `10 ^ n`, at most 308 places at a time. -/
def scaleDown (x : Binary64) : Nat → Nat → Binary64
  | 0, _ => x
  | fuel + 1, n =>
    if n ≤ 308 then x.overPower n
    else if x.magnitude = 0 then x
    else scaleDown (x.overPower 308) fuel (n - 308)

/-- The number `n * 10 ^ e`, unless it is too large. -/
def ofScientific? (n : Nat) (e : Int) : Option Binary64 :=
  let x := ofInt n
  if e < 0 then some (scaleDown x (e.natAbs / 308 + 1) e.natAbs)
  else if n = 0 then some x
  else if 308 < e then none
  else
    let y := x.timesPower e.toNat
    if y.isFinite then some y else none

def negate (x : Binary64) : Binary64 := ofBits (!x.negative) x.magnitude

end DocTables.Binary64
