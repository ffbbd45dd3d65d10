/-!
Binary floating-point numbers of 64 bits, by their bits: exact decoding, numerical order, and
rounding of a ratio of naturals to the nearest number, ties to even.
-/
namespace DocTables

/-- A number of the IEEE 754 binary64 format, given by its bit pattern. -/
structure Binary64 where
  bits : UInt64
  deriving DecidableEq

namespace Binary64

/-- The weight of the sign bit. -/
def signWeight : Nat := Nat.pow 2 63

/-- The number of fractions between a power of two and the next one. -/
def fractions : Nat := Nat.pow 2 52

/-- How many times the least positive number goes into 1. -/
def unitsPerOne : Nat := Nat.pow 2 1074

def negative (x : Binary64) : Bool := signWeight ≤ x.bits.toNat

/-- The pattern without its sign bit; it grows with the absolute value. -/
def magnitude (x : Binary64) : Nat := x.bits.toNat % signWeight

def exponentField (x : Binary64) : Nat := x.magnitude / fractions

def fraction (x : Binary64) : Nat := x.magnitude % fractions

def infinityMagnitude : Nat := 2047 * fractions

def isFinite (x : Binary64) : Bool := x.magnitude < infinityMagnitude

def isNaN (x : Binary64) : Bool := infinityMagnitude < x.magnitude

/-- The integer `m` with `|x| = m * 2 ^ (x.scale - 1074)`, for finite `x`. -/
def significand (x : Binary64) : Nat :=
  if x.exponentField = 0 then x.fraction else fractions + x.fraction

/-- How many doublings separate the unit of the significand from the least positive number. -/
def scale (x : Binary64) : Nat := x.exponentField - 1

def ofBits (negative : Bool) (magnitude : Nat) : Binary64 :=
  ⟨UInt64.ofNat (if negative then signWeight + magnitude else magnitude)⟩

/-- Both zeros have key 0; other numbers keep their order. -/
def orderKey (x : Binary64) : Int := if x.negative then -(x.magnitude : Int) else x.magnitude

/-- Numerical comparison; a NaN is comparable to nothing. -/
def compare? (x y : Binary64) : Option Ordering :=
  if x.isNaN || y.isNaN then none else some (compare x.orderKey y.orderKey)

/-- Numerical equality: the zeros are equal, a NaN equals nothing. -/
def numEq (x y : Binary64) : Bool := x.compare? y == some .eq

/-- The value, for a finite number without fractional part. -/
def toInt? (x : Binary64) : Option Int :=
  if x.isFinite then
    let n := x.significand * Nat.pow 2 x.scale
    if n % unitsPerOne = 0 then
      let k : Int := (n / unitsPerOne : Nat)
      some (if x.negative then -k else k)
    else none
  else none

/-- `num / den` rounded to the nearest integer, ties to even. -/
def roundDiv (num den : Nat) : Nat :=
  let q := num / den
  let r := num % den
  if 2 * r < den then q
  else if den < 2 * r then q + 1
  else q + q % 2

/-- The doublings `s` for which `num / den` over the least positive number, divided by `2 ^ s`,
has 53 binary digits before the point, or none when the ratio is too small for that. -/
def scaleOf (num den : Nat) : Nat :=
  let n := num * unitsPerOne
  let s := n.log2 - den.log2 - 52
  if n / (den * Nat.pow 2 s) < fractions then s - 1 else s

/-- The pattern of the number nearest to `num / den`, which may be the one of infinity. -/
def roundMagnitude (num den : Nat) : Nat :=
  let s := scaleOf num den
  min (s * fractions + roundDiv (num * unitsPerOne) (den * Nat.pow 2 s)) infinityMagnitude

/-- The number nearest to `num / den` with the given sign, ties to even. -/
def ofRatio (negative : Bool) (num den : Nat) : Binary64 :=
  ofBits negative (roundMagnitude num den)

/-- The number nearest to an integer, ties to even. -/
def ofInt (n : Int) : Binary64 := ofRatio (n < 0) n.natAbs 1

end Binary64

/-- The numbers other than the infinities and NaNs. -/
structure Finite64 where
  val : Binary64
  finite : val.isFinite = true
  deriving DecidableEq

namespace Binary64

def finite? (x : Binary64) : Option Finite64 := if h : x.isFinite = true then some ⟨x, h⟩ else none

end Binary64
end DocTables
