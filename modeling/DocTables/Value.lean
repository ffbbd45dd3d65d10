import DocTables.Json
import DocTables.Json.Text

/-!
Application values: what callers put into rows and get out of them. Integers have 64 bits and are
kept apart from floating-point numbers, which may be infinite or NaN.
-/
namespace DocTables

inductive Value where
  | null
  | bool (b : Bool)
  | int (n : Int64)
  | float (x : Binary64)
  | string (s : String)
  | array (items : List Value)
  | map (fields : KeyMap Value)

/-- A decoded or supplied row, by column key. -/
abbrev Row := KeyMap Value

/-- The kinds of values, as error messages name them. -/
inductive ValueKind where
  | null | bool | integer | float | string | array | map
  deriving DecidableEq, Repr

namespace ValueKind

def name : ValueKind → String
  | null => "null"
  | bool => "bool"
  | integer => "integer"
  | float => "float"
  | string => "string"
  | array => "array"
  | map => "map"

end ValueKind

/-- The 64-bit integer nearest to `n`. -/
def clampInt64 (n : Int) : Int64 :=
  if n < Int64.minValue.toInt then .minValue
  else if Int64.maxValue.toInt < n then .maxValue
  else .ofInt n

/-- `n` as a 64-bit integer, when it is one. -/
def int64? (n : Int) : Option Int64 :=
  if Int64.minValue.toInt ≤ n ∧ n ≤ Int64.maxValue.toInt then some (.ofInt n) else none

namespace Value

instance : Inhabited Value := ⟨.null⟩

def ofFields (fields : List (String × Value)) : Value := .map (.ofList fields)

def strings (ss : List String) : Value := .array (ss.map .string)

def ofString? : Option String → Value
  | some s => .string s
  | none => .null

def kind : Value → ValueKind
  | .null => .null
  | .bool _ => .bool
  | .int _ => .integer
  | .float _ => .float
  | .string _ => .string
  | .array _ => .array
  | .map _ => .map

def isNull : Value → Bool
  | .null => true
  | _ => false

def string? : Value → Option String
  | .string s => some s
  | _ => none

def bool? : Value → Option Bool
  | .bool b => some b
  | _ => none

/-- The value as an integer. A float without fractional part counts, cut to the 64-bit range. -/
def int? : Value → Option Int64
  | .int n => some n
  | .float x => x.toInt?.map clampInt64
  | _ => none

/-- The value as a floating-point number, an integer as the nearest one. -/
def float? : Value → Option Binary64
  | .int n => some (.ofInt n.toInt)
  | .float x => some x
  | _ => none

def array? : Value → Option (List Value)
  | .array items => some items
  | _ => none

def map? : Value → Option (KeyMap Value)
  | .map fields => some fields
  | _ => none

def get? : Value → String → Option Value
  | .map fields, k => fields.get? k
  | _, _ => none

/-- The string under a field of a map. -/
def field? (v : Value) (k : String) : Option String := (v.get? k).bind string?

/-- A text given by itself or under a field of a map. -/
def named? (v : Value) (k : String) : Option String :=
  match v with
  | .string s => some s
  | v => v.field? k

mutual

/-- The document of a value. Infinities and NaN have none and become null. -/
def toJson : Value → Json
  | .null => .null
  | .bool b => .bool b
  | .int n => .int n.toInt
  | .float x => x.finite?.elim .null .real
  | .string s => .string s
  | .array items => .array (toJsonItems items)
  | .map ⟨es⟩ => .object ⟨toJsonFields es⟩

def toJsonItems : List Value → List Json
  | [] => []
  | v :: vs => v.toJson :: toJsonItems vs

def toJsonFields : List (String × Value) → List (String × Json)
  | [] => []
  | (k, v) :: es => (k, v.toJson) :: toJsonFields es

end

mutual

/-- The value of a document. An integer beyond 64 bits becomes the nearest float. -/
def ofJson : Json → Value
  | .null => .null
  | .bool b => .bool b
  | .int n => (int64? n).elim (.float (.ofInt n)) .int
  | .real x => .float x.val
  | .string s => .string s
  | .array items => .array (ofJsonItems items)
  | .object ⟨es⟩ => .map ⟨ofJsonFields es⟩

def ofJsonItems : List Json → List Value
  | [] => []
  | j :: js => ofJson j :: ofJsonItems js

def ofJsonFields : List (String × Json) → List (String × Value)
  | [] => []
  | (k, j) :: es => (k, ofJson j) :: ofJsonFields es

end

/-- The text of a value is that of its document. -/
def text (v : Value) : String := v.toJson.text

end Value
end DocTables
