import DocTables.Json
import DocTables.Binary64.Shortest

/-! The compact text of a JSON document, fields in key order. -/
namespace DocTables

/-- How a binary fraction is written: positional for the decimal exponents from `lowest` to
`highest`, with the fraction `integral` behind a whole number; else with a power of ten behind
`mark`, whose sign is `plus` when it is not negative. -/
structure NumberLayout where
  lowest : Int
  highest : Int
  integral : String
  mark : String
  plus : String

namespace NumberLayout

def zeros (n : Nat) : String := String.ofList (List.replicate n '0')

def positional (l : NumberLayout) (digits : List Char) (exponent : Int) : String :=
  let point := (digits.length : Int) + exponent
  if 0 ≤ exponent then String.ofList digits ++ zeros exponent.toNat ++ l.integral
  else if 0 < point then
    String.ofList (digits.take point.toNat) ++ "." ++ String.ofList (digits.drop point.toNat)
  else "0." ++ zeros (-point).toNat ++ String.ofList digits

def scientific (l : NumberLayout) (digits : List Char) (leading : Int) : String :=
  let tail := digits.drop 1
  String.ofList (digits.take 1) ++ (if tail.isEmpty then "" else "." ++ String.ofList tail) ++
    l.mark ++ (if leading < 0 then "-" else l.plus) ++ toString leading.natAbs

def magnitude (l : NumberLayout) (x : Binary64) : String :=
  if x.magnitude = 0 then "0" ++ l.integral
  else
    let d := x.shortest
    let digits := Nat.toDigits 10 d.digits
    let leading := (digits.length : Int) + d.exponent - 1
    if l.lowest ≤ leading ∧ leading ≤ l.highest then l.positional digits d.exponent
    else l.scientific digits leading

/-- The text of a finite number; a zero keeps its sign. -/
def text (l : NumberLayout) (x : Binary64) : String :=
  (if x.negative then "-" else "") ++ l.magnitude x

end NumberLayout

namespace Json

/-- Fractions in documents: `100.0`, `0.00001`, `1.5e-7`, `1e+16`. -/
def layout : NumberLayout := ⟨-5, 15, ".0", "e", "+"⟩

def hexDigit (n : Nat) : Char := Nat.digitChar n

/-- The escape of a character inside a quoted text. -/
def escapeChar (c : Char) : List Char :=
  if c = '"' then ['\\', '"']
  else if c = '\\' then ['\\', '\\']
  else if c = '\x08' then ['\\', 'b']
  else if c = '\x0c' then ['\\', 'f']
  else if c = '\n' then ['\\', 'n']
  else if c = '\r' then ['\\', 'r']
  else if c = '\t' then ['\\', 't']
  else if c.toNat < 0x20 then
    ['\\', 'u', '0', '0', hexDigit (c.toNat / 16), hexDigit (c.toNat % 16)]
  else [c]

def quote (s : String) : String :=
  "\"" ++ String.ofList (s.toList.flatMap escapeChar) ++ "\""

mutual

def text : Json → String
  | .null => "null"
  | .bool b => if b then "true" else "false"
  | .int n => toString n
  | .real x => layout.text x.val
  | .string s => quote s
  | .array items => "[" ++ String.intercalate "," (textItems items) ++ "]"
  | .object ⟨es⟩ => "\x7b" ++ String.intercalate "," (textFields es) ++ "\x7d"

def textItems : List Json → List String
  | [] => []
  | j :: js => j.text :: textItems js

def textFields : List (String × Json) → List String
  | [] => []
  | (k, j) :: es => (quote k ++ ":" ++ j.text) :: textFields es

end

end Json
end DocTables
