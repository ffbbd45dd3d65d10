import DocTables.Predicate

/-!
Predicates and sorts in the query grammar of the store. A predicate has a filter when each operator
fits the type of its column and each operand is one that the type can be compared with.
-/
namespace DocTables

namespace PropertyRef

def refuse {α : Type} (p : PropertyRef) (why : OperandError) : Except TableError α :=
  .error (.operandRefused p.name why)

def refuseOperator {α : Type} (p : PropertyRef) (operator : String) : Except TableError α :=
  .error (.operatorRefused operator p.name p.type)

def textOr (p : PropertyRef) (why : OperandError) (text : Option String) : Except TableError Json :=
  text.elim (p.refuse why) fun s => .ok (.string s)

/-- The number of a unique id, given as a number or with its label. -/
def idNumber? : Value → Option Int64
  | .string s => (Text.numberedId? (Text.trim s).toList).bind fun n => int64? n
  | v => v.int?

/-- The operand of a comparison as the store takes it. -/
def operand (p : PropertyRef) (v : Value) : Except TableError Json :=
  match p.type with
  | .number =>
    let refused := p.refuse (.notNumber v.kind)
    match v with
    | .int n => .ok (.int n.toInt)
    | .float x => x.finite?.elim refused fun x => .ok (.real x)
    | _ => refused
  | .checkbox => v.bool?.elim (p.refuse (.notBool v.kind)) fun b => .ok (.bool b)
  | .date | .createdTime | .lastEditedTime => p.textOr .notDate (v.named? "start")
  | .select | .status | .multiSelect => p.textOr .notOption (v.named? "name")
  | .people | .createdBy | .lastEditedBy => p.textOr .notUser (v.named? "id")
  | .uniqueId => (idNumber? v).elim (p.refuse .notUniqueId) fun n => .ok (.int n.toInt)
  | .title | .richText | .url | .email | .phoneNumber => p.textOr (.notText v.kind) v.string?
  | .files | .relation => p.refuse .notFilterable

/-- The filter that puts one condition on a property. -/
def condition (p : PropertyRef) (name : String) (operand : Json) : Json :=
  .ofFields [("property", .string p.name), (p.type.key, .ofFields [(name, operand)])]

end PropertyRef

namespace Comparison

/-- The word of a comparison in conditions; dates have their own words for order. -/
def word (op : Comparison) (t : PropertyType) : String :=
  match op with
  | eq => "equals"
  | neq => "does_not_equal"
  | contains => "contains"
  | gt => if t.isDateLike then "after" else "greater_than"
  | gte => if t.isDateLike then "on_or_after" else "greater_than_or_equal_to"
  | lt => if t.isDateLike then "before" else "less_than"
  | lte => if t.isDateLike then "on_or_before" else "less_than_or_equal_to"

end Comparison

namespace Predicate

def comparisonFilter (op : Comparison) (p : PropertyRef) (v : Value) : Except TableError Json :=
  if op.supports p.type then (p.operand v).map (p.condition (op.word p.type))
  else p.refuseOperator op.name

def emptinessFilter (p : PropertyRef) (empty : Bool) : Except TableError Json :=
  if p.type.hasNullCheck then
    .ok (p.condition (if empty then "is_empty" else "is_not_empty") (.bool true))
  else p.refuseOperator (if empty then "is_null" else "is_not_null")

mutual

/-- The filter of a predicate. The first part that is refused, from the left, is the error. -/
def toFilter : Predicate → Except TableError Json
  | .compare op p v => comparisonFilter op p v
  | .emptiness p empty => emptinessFilter p empty
  | .combine op parts =>
    if parts.isEmpty then .error (.noParts op.name)
    else (toFilters parts).map fun js => .ofFields [(op.name, .array js)]

def toFilters : List Predicate → Except TableError (List Json)
  | [] => .ok []
  | p :: ps => do
    let j ← p.toFilter
    let js ← toFilters ps
    return j :: js

end

end Predicate

namespace SortKey

def toJson (s : SortKey) : Json :=
  .ofFields [("property", .string s.property), ("direction", .string s.direction.name)]

def toSorts (sorts : List SortKey) : Json := .array (sorts.map toJson)

end SortKey
end DocTables
