import DocTables.PropertyType
import DocTables.Text.LowerCase

/-! The part of a property that filters and sorts compare. -/
namespace DocTables

inductive Facet where
  | empty
  | text (s : String)
  | number (x : Binary64)
  | bool (b : Bool)
  | list (ss : List String)
  deriving DecidableEq

namespace Facet

def isEmpty : Facet → Bool
  | empty => true
  | text s => s.isEmpty
  | list ss => ss.isEmpty
  | number _ | bool _ => false

def compareText (a b : String) : Ordering := if a < b then .lt else if a = b then .eq else .gt

def compareBool : Bool → Bool → Ordering
  | false, true => .lt
  | true, false => .gt
  | _, _ => .eq

/-- Numbers, texts and booleans are ordered among themselves, nothing else is. -/
def compare? : Facet → Facet → Option Ordering
  | number x, number y => x.compare? y
  | text s, text t => some (compareText s t)
  | bool a, bool b => some (compareBool a b)
  | _, _ => none

/-- Equality of facets, by value for numbers. -/
def same : Facet → Facet → Bool
  | number x, number y => x.numEq y
  | c, d => c = d

def ofString? : Option String → Facet
  | some s => text s
  | none => empty

def ofNumber? : Option Binary64 → Facet
  | some x => number x
  | none => empty

/-- What a segment of rich text shows: its plain text, or its content if it has no plain text. -/
def shownText? (segment : Json) : Option String :=
  (segment.get? "plain_text" <|> (segment.get? "text").bind (·.get? "content")).bind Json.string?

/-- The names under a field of the items. -/
def names (field : String) (payload : Option Json) : Facet :=
  list ((payload.elim [] Json.items).filterMap (·.field? field))

/-- The facet of a payload, by the type whose key it stands under. -/
def ofPayload (t : Option PropertyType) (payload : Option Json) : Facet :=
  match t with
  | some .title | some .richText =>
    text (String.join ((payload.elim [] Json.items).filterMap shownText?))
  | some .number => ofNumber? (payload.bind Json.number?)
  | some .checkbox => bool ((payload.bind Json.bool?).getD false)
  | some .date => ofString? (payload.bind (·.field? "start"))
  | some .select | some .status => ofString? (payload.bind (·.field? "name"))
  | some .multiSelect | some .files => names "name" payload
  | some .people | some .relation => names "id" payload
  | some .createdBy | some .lastEditedBy => list (payload.bind (·.field? "id")).toList
  | some .uniqueId => ofNumber? ((payload.bind (·.get? "number")).bind Json.number?)
  | _ => ofString? (payload.bind Json.string?)

/-- The facet of a property, read under a key. -/
def ofProperty (key : String) (property : Json) : Facet :=
  ofPayload (PropertyType.ofKey? key) (property.payload? key)

/-- The facet of an operand of a condition. -/
def ofOperand : Json → Facet
  | .int n => number (.ofInt n)
  | .real x => number x.val
  | .string s => text s
  | .bool b => bool b
  | _ => empty

end Facet
end DocTables
