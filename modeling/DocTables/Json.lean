import DocTables.KeyMap
import DocTables.Binary64

/-! JSON documents as a store sends and keeps them: integers apart from other numbers. -/
namespace DocTables

/-- A JSON document. Integers are unbounded, other numbers are finite binary fractions. -/
inductive Json where
  | null
  | bool (b : Bool)
  | int (n : Int)
  | real (x : Finite64)
  | string (s : String)
  | array (items : List Json)
  | object (fields : KeyMap Json)

namespace Json

instance : Inhabited Json := ⟨.null⟩

/-- An object with the given fields; a later field of the same name wins. -/
def ofFields (fields : List (String × Json)) : Json := .object (.ofList fields)

def strings (ss : List String) : Json := .array (ss.map .string)

def ofOption : Option Json → Json
  | some j => j
  | none => .null

def ofString? (s : Option String) : Json := ofOption (s.map .string)

/-- The field of an object; other documents have none. -/
def get? : Json → String → Option Json
  | .object fields, k => fields.get? k
  | _, _ => none

def isNull : Json → Bool
  | .null => true
  | _ => false

def string? : Json → Option String
  | .string s => some s
  | _ => none

def bool? : Json → Option Bool
  | .bool b => some b
  | _ => none

def array? : Json → Option (List Json)
  | .array items => some items
  | _ => none

def object? : Json → Option (KeyMap Json)
  | .object fields => some fields
  | _ => none

/-- A number as a binary fraction, an integer as the nearest one. -/
def number? : Json → Option Binary64
  | .int n => some (.ofInt n)
  | .real x => some x.val
  | _ => none

/-- The items of an array; other documents have none. -/
def items : Json → List Json
  | .array items => items
  | _ => []

/-- The string under a field of an object. -/
def field? (j : Json) (k : String) : Option String := (j.get? k).bind string?

/-- The field of an object, unless it is null. -/
def payload? (j : Json) (k : String) : Option Json := (j.get? k).filter (!·.isNull)

end Json

/-- Properties of a record or of a schema, by property name. -/
abbrev Properties := KeyMap Json

end DocTables
