import DocTables.Json

/-!
Documents as the grammar of JSON reads them, before anybody asks for their values. A number that is
too great and a text with half of a surrogate pair belong to an outline but have no value; they
matter only where a shape looks at them.
-/
namespace DocTables.Json

/-- What of a document is looked at: all of it, or some fields of it. -/
inductive Shape where
  | whole
  /-- An array whose items have a shape. -/
  | each (item : Shape)
  /-- An object with these fields, each at most once, or the array of their values in this order.
  Other fields are passed over. -/
  | record (fields : List (String × Shape))

/-- The outline of a document: nothing stands for a leaf or a name without a value. -/
inductive Outline where
  | leaf (value : Option Json)
  | array (items : List Outline)
  | object (fields : List (Option String × Outline))

namespace Shape

def ofNames (names : List String) : Shape := .record (names.map fun k => (k, .whole))

/-- The shape of a field, if it is looked at. -/
def field? : Shape → String → Option Shape
  | record fields, k => fields.lookup k
  | _, _ => some whole

/-- The shape of the item at a place. -/
def item : Shape → Nat → Shape
  | whole, _ => whole
  | each s, _ => s
  | record fields, i => (fields[i]?).elim whole Prod.snd

/-- Of repeated fields the last one counts, but a record may not repeat a field. -/
def allows : Shape → List String → Bool
  | record _, ks => decide ks.Nodup
  | _, _ => true

end Shape

namespace Outline

mutual

/-- What a shape looks at, as a document whose arrays and objects are nested at most `depth`
deep. -/
def read (s : Shape) (depth : Nat) : Outline → Option Json
  | .leaf value => value
  | .array items =>
    match depth with
    | 0 => none
    | depth + 1 => (readItems s 0 depth items).map .array
  | .object fields =>
    match depth with
    | 0 => none
    | depth + 1 =>
      (readFields s depth fields).bind fun es =>
        if s.allows (es.map Prod.fst) then some (.ofFields es) else none

def readItems (s : Shape) (i depth : Nat) : List Outline → Option (List Json)
  | [] => some []
  | o :: os => do
    let j ← read (s.item i) depth o
    let js ← readItems s (i + 1) depth os
    return j :: js

def readFields (s : Shape) (depth : Nat) :
    List (Option String × Outline) → Option (List (String × Json))
  | [] => some []
  | (none, _) :: _ => none
  | (some k, o) :: fs =>
    match s.field? k with
    | none => readFields s depth fs
    | some t => do
      let j ← read t depth o
      let es ← readFields s depth fs
      return (k, j) :: es

end

/-- How deep documents may be nested where they are looked at. -/
def depthLimit : Nat := 127

/-- What a shape looks at. -/
def json? (s : Shape) (o : Outline) : Option Json := o.read s depthLimit

end Outline
end DocTables.Json
