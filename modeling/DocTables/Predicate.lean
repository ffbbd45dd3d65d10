import DocTables.Column

/-! Predicates and sort orders over columns, before they are checked against the column types. -/
namespace DocTables

inductive Comparison where
  | eq | neq | contains | gt | gte | lt | lte
  deriving DecidableEq, Repr

inductive Connective where
  | and | or
  deriving DecidableEq, Repr

/-- The property behind a column and its type. -/
structure PropertyRef where
  name : String
  type : PropertyType
  deriving DecidableEq, Repr

inductive Predicate where
  | compare (op : Comparison) (property : PropertyRef) (operand : Value)
  | emptiness (property : PropertyRef) (empty : Bool)
  | combine (op : Connective) (parts : List Predicate)

inductive Direction where
  | ascending | descending
  deriving DecidableEq, Repr

/-- One property to sort by. -/
structure SortKey where
  property : String
  direction : Direction
  deriving DecidableEq, Repr

namespace Comparison

def all : List Comparison := [eq, neq, contains, gt, gte, lt, lte]

def name : Comparison → String
  | eq => "eq"
  | neq => "neq"
  | contains => "contains"
  | gt => "gt"
  | gte => "gte"
  | lt => "lt"
  | lte => "lte"

def ofName? (s : String) : Option Comparison := all.find? fun op => op.name = s

def isOrder : Comparison → Bool
  | gt | gte | lt | lte => true
  | _ => false

/-- The column types that a comparison may be applied to. -/
def supports (op : Comparison) (t : PropertyType) : Bool :=
  match op with
  | eq | neq =>
    match t with
    | .title | .richText | .number | .checkbox | .date | .url | .email | .phoneNumber | .select
    | .status | .uniqueId | .createdTime | .lastEditedTime => true
    | _ => false
  | contains =>
    match t with
    | .title | .richText | .multiSelect | .people | .createdBy | .lastEditedBy => true
    | _ => false
  | gt | gte | lt | lte => t.isDateLike || t.isNumeric

end Comparison

namespace Connective

def all : List Connective := [and, or]

def name : Connective → String
  | and => "and"
  | or => "or"

def ofName? (s : String) : Option Connective := all.find? fun op => op.name = s

end Connective

namespace Direction

def all : List Direction := [ascending, descending]

def name : Direction → String
  | ascending => "ascending"
  | descending => "descending"

def ofName? (s : String) : Option Direction := all.find? fun d => d.name = s

end Direction

namespace Column

def ref (c : Column) : PropertyRef := ⟨c.name, c.type⟩

end Column
end DocTables
