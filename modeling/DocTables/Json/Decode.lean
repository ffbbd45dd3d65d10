import DocTables.Json

/-!
Reading structures from documents. A structure is an object, whose unknown fields are ignored, or
the array of its fields in their order; a name is a string, or an object with null under that name.
-/
namespace DocTables.Json

/-- The fields of a structure whose fields have the given names. -/
def structure? (names : List String) : Json → Option (KeyMap Json)
  | .object fields => some fields
  | .array items => if items.length ≤ names.length then some (.ofList (names.zip items)) else none
  | _ => none

def variant? : Json → Option String
  | .string s => some s
  | .object ⟨[(k, .null)]⟩ => some k
  | _ => none

/-- Reads null as nothing. -/
def option? {α : Type} (read : Json → Option α) : Json → Option (Option α)
  | .null => some none
  | j => (read j).map some

def document? (j : Json) : Option Json := some j

def list? {α : Type} (read : Json → Option α) (j : Json) : Option (List α) :=
  j.array?.bind fun items => items.mapM read

/-- A natural number below `bound`. -/
def nat? (bound : Nat) : Json → Option Nat
  | .int n => if 0 ≤ n ∧ n < bound then some n.toNat else none
  | _ => none

def required {α : Type} (fields : KeyMap Json) (k : String) (read : Json → Option α) : Option α :=
  (fields.get? k).bind read

def defaulted {α : Type} (fields : KeyMap Json) (k : String) (read : Json → Option α)
    (otherwise : α) : Option α :=
  (fields.get? k).elim (some otherwise) read

/-- A field that may be missing or null. -/
def optional {α : Type} (fields : KeyMap Json) (k : String) (read : Json → Option α) :
    Option (Option α) :=
  defaulted fields k (option? read) none

/-- A field that is left out when there is nothing to write. -/
def present (k : String) (j : Option Json) : List (String × Json) := j.toList.map fun j => (k, j)

end DocTables.Json
