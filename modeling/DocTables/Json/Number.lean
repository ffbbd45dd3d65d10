import DocTables.Binary64.Scaling
import DocTables.Json
import DocTables.Text.Digit

/-!
Reading the numbers of JSON. Whole numbers within 64 bits are integers; other numbers are the whole
number of their digits, scaled by a power of ten. A number beyond all binary fractions has no value.
-/
namespace DocTables.Json.Reader

/-- Reads digits into a number of 64 bits. From the first digit that does not fit, the digits are
only counted. -/
def digits (n : Nat) : List Char → (Nat × Nat × Nat) × List Char
  | [] => ((n, 0, 0), [])
  | c :: cs =>
    if Text.isAsciiDigit c then
      let n' := 10 * n + (c.toNat - 0x30)
      if n' < UInt64.size then
        match digits n' cs with
        | ((m, taken, dropped), rest) => ((m, taken + 1, dropped), rest)
      else
        ((n, 0, (c :: cs).takeWhile Text.isAsciiDigit |>.length),
          (c :: cs).dropWhile Text.isAsciiDigit)
    else ((n, 0, 0), c :: cs)

def realOf (negative : Bool) (n : Nat) (e : Int) : Option Json := do
  let x ← Binary64.ofScientific? n e
  let x ← (if negative then x.negate else x).finite?
  return .real x

/-- The power of ten behind `e`, cut to 32 bits. -/
def exponent (cs : List Char) : Option (Int × List Char) :=
  let (negative, cs) :=
    match cs with
    | '+' :: cs => (false, cs)
    | '-' :: cs => (true, cs)
    | cs => (false, cs)
  match cs.takeWhile Text.isAsciiDigit with
  | [] => none
  | ds =>
    let n : Nat := min (Nat.pow 2 31) (Text.decimalValue ds)
    some (if negative then -(n : Int) else n, cs.dropWhile Text.isAsciiDigit)

/-- An optional exponent behind a number `n * 10 ^ e`. -/
def scaled (negative : Bool) (n : Nat) (e : Int) (cs : List Char) :
    Option (Option Json × List Char) :=
  match cs with
  | c :: rest =>
    if c = 'e' || c = 'E' then do
      let (x, tail) ← exponent rest
      return (realOf negative n (e + x), tail)
    else some (realOf negative n e, cs)
  | [] => some (realOf negative n e, cs)

def fraction (negative : Bool) (n : Nat) (e : Int) (cs : List Char) :
    Option (Option Json × List Char) :=
  match digits n cs with
  | ((m, taken, dropped), rest) =>
    if taken + dropped = 0 then none else scaled negative m (e - taken) rest

/-- The number with a whole part. Whole numbers within 64 bits are integers, but for minus zero. -/
def number (negative : Bool) (cs : List Char) : Option (Option Json × List Char) :=
  match cs with
  | '0' :: c :: rest =>
    if Text.isAsciiDigit c then none else finish 0 0 (c :: rest)
  | _ =>
    match digits 0 cs with
    | ((n, taken, dropped), rest) => if taken = 0 then none else finish n dropped rest
where
  finish (n dropped : Nat) (rest : List Char) : Option (Option Json × List Char) :=
    match rest with
    | '.' :: rest => fraction negative n dropped rest
    | c :: _ =>
      if c = 'e' || c = 'E' || dropped ≠ 0 then scaled negative n dropped rest
      else some (whole n, rest)
    | [] => if dropped ≠ 0 then scaled negative n dropped rest else some (whole n, rest)
  whole (n : Nat) : Option Json :=
    if !negative then some (.int n)
    else if n = 0 ∨ Nat.pow 2 63 < n then realOf true n 0
    else some (.int (-n))

end DocTables.Json.Reader
