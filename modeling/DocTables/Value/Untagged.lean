import DocTables.Value

/-!
Reading a value from a document that does not name its kind. The kinds are tried in turn, and the
first one that the document can be read as is taken.
-/
namespace DocTables

/-- All kinds, in the order in which they are tried. -/
def ValueKind.all : List ValueKind := [null, bool, integer, float, string, array, map]

namespace Value

mutual

def ofUntagged? (j : Json) : Option Value := ValueKind.all.findSome? fun k => readAs? k j
termination_by (sizeOf j, 1)

/-- A document read as a value of one kind. An integer that has no place among those of 64 bits can
still be read as a float. -/
def readAs? (k : ValueKind) (j : Json) : Option Value :=
  match k, j with
  | .null, .null => some .null
  | .bool, .bool b => some (.bool b)
  | .integer, .int n => (int64? n).map .int
  | .float, .int n => some (.float (.ofInt n))
  | .float, .real x => some (.float x.val)
  | .string, .string s => some (.string s)
  | .array, .array items => (ofUntaggedItems? items).map .array
  | .map, .object ⟨es⟩ => (ofUntaggedFields? es).map fun es => .map ⟨es⟩
  | _, _ => none
termination_by (sizeOf j, 0)

def ofUntaggedItems? (js : List Json) : Option (List Value) :=
  match js with
  | [] => some []
  | j :: js => do
    let v ← ofUntagged? j
    let vs ← ofUntaggedItems? js
    return v :: vs
termination_by (sizeOf js, 2)

def ofUntaggedFields? (es : List (String × Json)) : Option (List (String × Value)) :=
  match es with
  | [] => some []
  | (k, j) :: es => do
    let v ← ofUntagged? j
    let vs ← ofUntaggedFields? es
    return (k, v) :: vs
termination_by (sizeOf es, 2)

end

end Value
end DocTables
