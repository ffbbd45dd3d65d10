import DocTables.Text.Blank
import DocTables.Text.Digit

/-! Recognisers of the written forms that columns accept: dates, addresses, numbers, ids. -/
namespace DocTables.Text

/-- Drops `n` characters of the class `p`, when that many are in front. -/
def skip (p : Char → Bool) : Nat → List Char → Option (List Char)
  | 0, cs => some cs
  | n + 1, c :: cs => if p c then skip p n cs else none
  | _ + 1, [] => none

def skipChar (c : Char) : List Char → Option (List Char) := skip (· == c) 1

/-- Drops a part that is present exactly when its first character `c` is. -/
def skipPart (c : Char) (part : List Char → Option (List Char)) : List Char → Option (List Char)
  | [] => some []
  | d :: cs => if d = c then part cs else some (d :: cs)

section
variable (digit : Char → Bool)

def skipDay (cs : List Char) : Option (List Char) := do
  let cs ← skip digit 4 cs
  let cs ← skipChar '-' cs
  let cs ← skip digit 2 cs
  let cs ← skipChar '-' cs
  skip digit 2 cs

def skipHourMinute (cs : List Char) : Option (List Char) := do
  let cs ← skip digit 2 cs
  let cs ← skipChar ':' cs
  skip digit 2 cs

/-- One or more digits. -/
def skipFraction (cs : List Char) : Option (List Char) := (skip digit 1 cs).map (·.dropWhile digit)

def skipSeconds (cs : List Char) : Option (List Char) := do
  let cs ← skip digit 2 cs
  skipPart '.' (skipFraction digit) cs

/-- Nothing, `Z`, or a signed distance from it in hours and minutes. -/
def isZone : List Char → Bool
  | [] => true
  | c :: cs =>
    if c = 'Z' then cs.isEmpty else (c == '+' || c == '-') && skipHourMinute digit cs == some []

def isClock (cs : List Char) : Bool :=
  match (skipHourMinute digit cs).bind (skipPart ':' (skipSeconds digit)) with
  | some cs => isZone digit cs
  | none => false

/-- A calendar day, or a day with a time and perhaps a zone, in the extended format of ISO 8601. -/
def isDate (cs : List Char) : Bool :=
  match skipDay digit cs with
  | none => false
  | some [] => true
  | some (c :: cs) => c == 'T' && isClock digit cs

end

/-- What may follow `://` in a web address. -/
def isAddressStart (c : Char) : Bool :=
  !isBlank c && c != '/' && c != '$' && c != '.' && c != '?' && c != '#'

def stripScheme : List Char → Option (List Char)
  | 'h' :: 't' :: 't' :: 'p' :: ':' :: '/' :: '/' :: cs => some cs
  | 'h' :: 't' :: 't' :: 'p' :: 's' :: ':' :: '/' :: '/' :: cs => some cs
  | _ => none

def isUrl (cs : List Char) : Bool :=
  match stripScheme cs with
  | some (c :: cs) => isAddressStart c && cs.all fun c => !isBlank c
  | _ => false

/-- A dot with a character on each side of it. -/
def hasInnerDot (cs : List Char) : Bool := cs.tail.dropLast.contains '.'

def isEmail (cs : List Char) : Bool :=
  match cs.span (· != '@') with
  | (c :: name, _ :: domain) =>
    (c :: name).all (fun c => !isBlank c) && domain.all (fun c => !isBlank c && c != '@') &&
      hasInnerDot domain
  | _ => false

def isPhoneChar (c : Char) : Bool :=
  isAsciiDigit c || c == '+' || c == '-' || c == '(' || c == ')' || c == '.' || c == ' '

def isPhone (cs : List Char) : Bool :=
  !cs.isEmpty && cs.all isPhoneChar && 3 ≤ cs.countP isAsciiDigit

/-- The number behind the last hyphen, of a text with a non-empty front free of blanks. -/
def numberedId? (cs : List Char) : Option Nat :=
  match cs.reverse.span (· != '-') with
  | (number, _ :: front) =>
    if !front.isEmpty && front.all (fun c => !isBlank c) then decimal? number.reverse else none
  | _ => none

end DocTables.Text
