import DocTables.Text.Digit

/-!
Reading the quoted texts of JSON. Escapes may name halves of surrogate pairs; a text in which one
stands alone has no value.
-/
namespace DocTables.Json.Reader

def hexDigit? (c : Char) : Option Nat :=
  if Text.isAsciiDigit c then some (c.toNat - 0x30)
  else if 'a' ≤ c && c ≤ 'f' then some (c.toNat - 0x57)
  else if 'A' ≤ c && c ≤ 'F' then some (c.toNat - 0x37)
  else none

def hex4? (a b c d : Char) : Option Nat := do
  let high := (← hexDigit? a) * 16 + (← hexDigit? b)
  return high * 256 + (← hexDigit? c) * 16 + (← hexDigit? d)

/-- The character of two halves of a surrogate pair. -/
def pair? (high low : Nat) : Option Char :=
  if 0xD800 ≤ high ∧ high < 0xDC00 ∧ 0xDC00 ≤ low ∧ low < 0xE000 then
    some (Char.ofNat (0x10000 + (high - 0xD800) * 0x400 + (low - 0xDC00)))
  else none

def isSurrogate (n : Nat) : Bool := 0xD800 ≤ n && n < 0xE000

def escaped? (c : Char) : Option Char :=
  [('"', '"'), ('\\', '\\'), ('/', '/'), ('b', '\x08'), ('f', '\x0c'), ('n', '\n'), ('r', '\r'),
    ('t', '\t')].lookup c

/-- The characters of a text, if it has a value, and what follows it. -/
abbrev Quoted := Option (Option (List Char) × List Char)

namespace Quoted

def cons (c : Char) (r : Quoted) : Quoted := r.map fun r => (r.1.map (c :: ·), r.2)

/-- The text holds half of a surrogate pair. -/
def broken (r : Quoted) : Quoted := r.map fun r => (none, r.2)

end Quoted

/-- Reads the characters up to the closing quote. -/
def quoted : List Char → Quoted
  | [] => none
  | '"' :: cs => some (some [], cs)
  | '\\' :: 'u' :: a :: b :: c :: d :: '\\' :: 'u' :: e :: f :: g :: h :: cs => do
    let n ← hex4? a b c d
    let low ← hex4? e f g h
    match pair? n low with
    | some p => (quoted cs).cons p
    | none =>
      let rest := quoted ('\\' :: 'u' :: e :: f :: g :: h :: cs)
      if isSurrogate n then rest.broken else rest.cons (Char.ofNat n)
  | '\\' :: 'u' :: a :: b :: c :: d :: cs => do
    let n ← hex4? a b c d
    if isSurrogate n then (quoted cs).broken else (quoted cs).cons (Char.ofNat n)
  | '\\' :: c :: cs => do (quoted cs).cons (← escaped? c)
  | c :: cs => if c.toNat < 0x20 then none else (quoted cs).cons c

end DocTables.Json.Reader
