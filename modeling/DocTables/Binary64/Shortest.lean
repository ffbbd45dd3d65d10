import DocTables.Binary64

/-!
The decimal with fewest digits that reads back as a given binary number; of two such decimals the
nearer one, and of two equally near ones the one with an even last digit.
-/
namespace DocTables

/-- The number `digits * 10 ^ exponent`. -/
structure Decimal where
  digits : Nat
  exponent : Int
  deriving DecidableEq

namespace Decimal

/-- Removes trailing zeros, at most `fuel` of them. -/
def normalize (d : Decimal) : Nat → Decimal
  | 0 => d
  | fuel + 1 =>
    if d.digits ≠ 0 ∧ d.digits % 10 = 0 then normalize ⟨d.digits / 10, d.exponent + 1⟩ fuel
    else d

end Decimal

namespace Binary64

/-- A positive number with the ends of the interval of reals that round to it. All three are
numerators over `10 ^ 400 * 2 ^ 1076`. -/
structure Neighbourhood where
  value : Nat
  low : Nat
  high : Nat
  closed : Bool

namespace Neighbourhood

def unit : Nat := Nat.pow 2 1076

def shift : Nat := Nat.pow 10 400

def ofNumber (x : Binary64) : Neighbourhood :=
  let step := Nat.pow 2 x.scale * shift
  let value := 4 * x.significand * step
  let below := if x.fraction = 0 ∧ 1 < x.exponentField then step else 2 * step
  ⟨value, value - below, value + 2 * step, x.significand % 2 = 0⟩

def holds (i : Neighbourhood) (y : Nat) : Bool :=
  if i.closed then i.low ≤ y && y ≤ i.high else i.low < y && y < i.high

/-- The power of ten at or below the value, as a number of digits over `10 ^ -400`. -/
def digitCount (i : Neighbourhood) : Nat := (Nat.toDigits 10 (i.value / unit)).length

/-- The nearer of the two multiples of `10 ^ (place - 400)` around the value, among those that
round to it. -/
def candidate (i : Neighbourhood) (place : Nat) : Option Nat :=
  let grid := unit * Nat.pow 10 place
  let below := i.value / grid
  let rest := i.value % grid
  match i.holds (below * grid), i.holds ((below + 1) * grid) with
  | false, false => none
  | true, false => some below
  | false, true => some (below + 1)
  | true, true =>
    if 2 * rest < grid then some below
    else if grid < 2 * rest then some (below + 1)
    else some (below + below % 2)

/-- Tries one digit, then two, and so on. -/
def search (i : Neighbourhood) (place : Nat) : Nat → Decimal
  | 0 => ⟨i.value / (unit * Nat.pow 10 place), (place : Int) - 400⟩
  | fuel + 1 =>
    match i.candidate place with
    | some n => Decimal.normalize ⟨n, (place : Int) - 400⟩ 20
    | none => search i (place - 1) fuel

end Neighbourhood

/-- The shortest decimal of the absolute value of a finite number other than zero. -/
def shortest (x : Binary64) : Decimal :=
  let i := Neighbourhood.ofNumber x
  i.search (i.digitCount - 1) 17

end Binary64
end DocTables
