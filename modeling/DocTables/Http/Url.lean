import DocTables.Text.Blank

/-!
The part of an address behind its host, read as browsers and HTTP clients read it: dot segments are
resolved and characters outside the allowed sets are percent-encoded.
-/
namespace DocTables.Url

/-- What is asked of a host. -/
structure Target where
  path : String
  query : Option String
  deriving DecidableEq, Repr

def isControlOrSpace (c : Char) : Bool := c.toNat ≤ 0x20

def isTabOrNewline (c : Char) : Bool := c = '\t' || c = '\n' || c = '\r'

/-- Trailing controls and spaces do not count, nor do tabs and newlines anywhere. -/
def cleaned (cs : List Char) : List Char :=
  (cs.reverse.dropWhile isControlOrSpace).reverse.filter fun c => !isTabOrNewline c

/-- Characters that a path may not hold as they are. -/
def pathReserved : List Char := ['"', '<', '>', '`', '#', '?', '\x7b', '\x7d']

/-- Characters that a query may not hold as they are. -/
def queryReserved : List Char := ['"', '#', '<', '>', '\x27']

def isGraphic (c : Char) : Bool := 0x20 < c.toNat && c.toNat < 0x7F

def isPathChar (c : Char) : Bool := isGraphic c && !pathReserved.contains c

def isQueryChar (c : Char) : Bool := isGraphic c && !queryReserved.contains c

def upperHex (n : Nat) : Char := (Nat.digitChar n).toUpper

def encodeByte (b : UInt8) : List Char := ['%', upperHex (b.toNat / 16), upperHex (b.toNat % 16)]

/-- Percent-encodes the bytes of the characters that are not allowed. -/
def encode (allowed : Char → Bool) (cs : List Char) : List Char :=
  cs.flatMap fun c =>
    if allowed c then [c] else (String.utf8EncodeChar c).flatMap encodeByte

/-- Cuts at every slash, forward or backward. -/
def segments : List Char → List (List Char)
  | [] => [[]]
  | c :: cs =>
    if c = '/' || c = '\\' then [] :: segments cs
    else
      match segments cs with
      | [] => [[c]]
      | s :: ss => (c :: s) :: ss

/-- The segment with its encoded dots written out. -/
def decodeDots : List Char → List Char
  | '%' :: '2' :: 'e' :: cs => '.' :: decodeDots cs
  | '%' :: '2' :: 'E' :: cs => '.' :: decodeDots cs
  | c :: cs => c :: decodeDots cs
  | [] => []

def isSingleDot (s : List Char) : Bool := decodeDots s == ['.']

def isDoubleDot (s : List Char) : Bool := decodeDots s == ['.', '.']

/-- A letter and a colon or bar, the name of a drive. -/
def isDrive : List Char → Bool
  | [c, mark] => c.isAlpha && (mark = ':' || mark = '|')
  | _ => false

/-- The segments above the last one, where a drive has nothing above it. -/
def above : List (List Char) → List (List Char)
  | [] => []
  | s :: ss => if isDrive s then s :: ss else ss

/-- Resolves dot segments; `parents` are the resolved segments, last one first. A dot segment at
the end leaves an empty segment. -/
def resolve (parents : List (List Char)) : List (List Char) → List (List Char)
  | [] => parents.reverse
  | [s] =>
    if isDoubleDot s then (above parents).reverse ++ [[]]
    else if isSingleDot s then parents.reverse ++ [[]]
    else (s :: parents).reverse
  | s :: ss =>
    if isDoubleDot s then resolve (above parents) ss
    else if isSingleDot s then resolve parents ss
    else resolve (s :: parents) ss

def joinPath (ss : List (List Char)) : List Char := ss.flatMap fun s => '/' :: s

/-- The path of an address, given without its first slash. -/
def pathText (cs : List Char) : String :=
  String.ofList (joinPath ((resolve [] (segments cs)).map (encode isPathChar)))

def isPathEnd (c : Char) : Bool := c == '?' || c == '#'

/-- The query behind a path. A fragment is not sent. -/
def queryText? : List Char → Option String
  | '?' :: cs => some (String.ofList (encode isQueryChar (cs.takeWhile (· != '#'))))
  | _ => none

/-- Reads what stands behind the host of an address; anything but a path, query or fragment there
would be part of the host. -/
def target? (text : String) : Option Target :=
  match cleaned text.toList with
  | [] => some ⟨"/", none⟩
  | c :: cs =>
    if c = '/' || c = '\\' then
      some ⟨pathText (cs.takeWhile fun c => !isPathEnd c),
        queryText? (cs.dropWhile fun c => !isPathEnd c)⟩
    else if isPathEnd c then some ⟨"/", queryText? (c :: cs)⟩
    else none

namespace Target

/-- The target as it stands in a request. -/
def text (t : Target) : String := t.path ++ t.query.elim "" fun q => "?" ++ q

end Target
end DocTables.Url
