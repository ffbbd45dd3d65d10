import DocTables.Json.Number
import DocTables.Json.Outline
import DocTables.Json.Quoted

/-! Reading the text of a JSON document. Fields are kept in the order of the text. -/
namespace DocTables.Json

namespace Reader

def isSpace (c : Char) : Bool := c = ' ' || c = '\t' || c = '\n' || c = '\r'

def skipSpace (cs : List Char) : List Char := cs.dropWhile isSpace

def word (w : String) (j : Json) (cs : List Char) : Option (Option Json × List Char) :=
  if w.toList.isPrefixOf cs then some (some j, cs.drop w.length) else none

def name (cs : List Char) : Option (Option String × List Char) :=
  (quoted cs).map fun r => (r.1.map String.ofList, r.2)

/-- Reads a literal, a number or a text. -/
def leaf (cs : List Char) : Option (Option Json × List Char) :=
  match cs with
  | '"' :: cs => (name cs).map fun r => (r.1.map .string, r.2)
  | '-' :: cs => number true cs
  | 'n' :: _ => word "null" .null cs
  | 't' :: _ => word "true" (.bool true) cs
  | 'f' :: _ => word "false" (.bool false) cs
  | cs => number false cs

mutual

/-- Reads a document with at most `fuel` steps. -/
def value (fuel : Nat) (cs : List Char) : Option (Outline × List Char) :=
  match fuel with
  | 0 => none
  | fuel + 1 =>
    match cs with
    | '[' :: cs =>
      match skipSpace cs with
      | ']' :: rest => some (.array [], rest)
      | cs => (items fuel cs).map fun r => (.array r.1, r.2)
    | '\x7b' :: cs =>
      match skipSpace cs with
      | '\x7d' :: rest => some (.object [], rest)
      | cs => (fields fuel cs).map fun r => (.object r.1, r.2)
    | cs => (leaf cs).map fun r => (.leaf r.1, r.2)

def items (fuel : Nat) (cs : List Char) : Option (List Outline × List Char) :=
  match fuel with
  | 0 => none
  | fuel + 1 => do
    let (o, rest) ← value fuel (skipSpace cs)
    match skipSpace rest with
    | ']' :: rest => return ([o], rest)
    | ',' :: rest =>
      let (os, rest) ← items fuel rest
      return (o :: os, rest)
    | _ => none

def fields (fuel : Nat) (cs : List Char) :
    Option (List (Option String × Outline) × List Char) :=
  match fuel with
  | 0 => none
  | fuel + 1 =>
    match skipSpace cs with
    | '"' :: cs => do
      let (k, rest) ← name cs
      match skipSpace rest with
      | ':' :: rest =>
        let (o, rest) ← value fuel (skipSpace rest)
        match skipSpace rest with
        | '\x7d' :: rest => return ([(k, o)], rest)
        | ',' :: rest =>
          let (fs, rest) ← fields fuel rest
          return ((k, o) :: fs, rest)
        | _ => none
      | _ => none
    | _ => none

end

end Reader

/-- The outline of the document that a text is. -/
def Outline.ofText? (s : String) : Option Outline :=
  let cs := Reader.skipSpace s.toList
  match Reader.value (2 * cs.length + 2) cs with
  | some (o, rest) => if (Reader.skipSpace rest).isEmpty then some o else none
  | none => none

end DocTables.Json
