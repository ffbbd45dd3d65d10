import DocTables.Store.Facet
import DocTables.Store.Error
import DocTables.Record

/-!
Filters of the store's query grammar and when a record satisfies one. A filter that cannot be read
fails only where it is reached.
-/
namespace DocTables

inductive Condition where
  | equals | doesNotEqual | contains | doesNotContain | isEmpty | isNotEmpty
  | greater | greaterOrEqual | less | lessOrEqual
  deriving DecidableEq, Repr

namespace Condition

/-- Conditions by name; order has one set of words for numbers and one for dates. -/
def names : List (String × Condition) :=
  [("equals", equals), ("does_not_equal", doesNotEqual), ("contains", contains),
    ("does_not_contain", doesNotContain), ("is_empty", isEmpty), ("is_not_empty", isNotEmpty),
    ("greater_than", greater), ("after", greater),
    ("greater_than_or_equal_to", greaterOrEqual), ("on_or_after", greaterOrEqual),
    ("less_than", less), ("before", less),
    ("less_than_or_equal_to", lessOrEqual), ("on_or_before", lessOrEqual)]

def ofName? (s : String) : Option Condition := KeyMap.lookup s names

/-- Texts contain their parts regardless of case, lists contain their members. -/
def includes (facet : Facet) (operand : Json) : Bool :=
  match operand.string? with
  | none => false
  | some needle =>
    match facet with
    | .text s => Text.containsFolded s needle
    | .list ss => ss.contains needle
    | _ => false

def holds (c : Condition) (facet : Facet) (operand : Json) : Bool :=
  match c with
  | equals => facet.same (.ofOperand operand)
  | doesNotEqual => !facet.same (.ofOperand operand)
  | contains => includes facet operand
  | doesNotContain => !includes facet operand
  | isEmpty => facet.isEmpty
  | isNotEmpty => !facet.isEmpty
  | greater => facet.compare? (.ofOperand operand) == some .gt
  | greaterOrEqual =>
    let o := facet.compare? (.ofOperand operand)
    o == some .gt || o == some .eq
  | less => facet.compare? (.ofOperand operand) == some .lt
  | lessOrEqual =>
    let o := facet.compare? (.ofOperand operand)
    o == some .lt || o == some .eq

end Condition

/-- Conditions on one property, read under the key of a type. -/
structure PropertyTest where
  property : String
  key : String
  conditions : List (String × Json)

inductive Filter where
  | all (parts : List Filter)
  | any (parts : List Filter)
  | test (t : Except FilterError PropertyTest)

namespace PropertyTest

def ofJson (j : Json) : Except FilterError PropertyTest :=
  match j.field? "property" with
  | none => .error (.noProperty j)
  | some property =>
    match j.declaredType? with
    | none => .error (.noType property)
    | some key =>
      match (j.get? key).bind Json.object? with
      | none => .error (.noConditions property)
      | some conditions => .ok ⟨property, key, conditions.entries⟩

/-- All conditions hold; the first that fails or is unknown decides. -/
def checkAll (facet : Facet) : List (String × Json) → Except FilterError Bool
  | [] => .ok true
  | (name, operand) :: cs =>
    match Condition.ofName? name with
    | none => .error (.unknownCondition name)
    | some c => if c.holds facet operand then checkAll facet cs else .ok false

def holds (t : PropertyTest) (properties : Properties) : Except FilterError Bool :=
  checkAll ((properties.get? t.property).elim .empty (Facet.ofProperty t.key)) t.conditions

end PropertyTest

namespace Filter

mutual

/-- Reads a filter: the array under `and`, else that under `or`, else a test. -/
def ofJson : Json → Filter
  | .object ⟨es⟩ =>
    match KeyMap.lookup "and" (branches es), KeyMap.lookup "or" (branches es) with
    | some parts, _ => .all parts
    | none, some parts => .any parts
    | none, none => .test (PropertyTest.ofJson (.object ⟨es⟩))
  | j => .test (PropertyTest.ofJson j)

/-- The fields that hold arrays, their items read as filters. -/
def branches : List (String × Json) → List (String × List Filter)
  | [] => []
  | (k, j) :: es =>
    match j with
    | .array items => (k, ofJsonItems items) :: branches es
    | _ => branches es

def ofJsonItems : List Json → List Filter
  | [] => []
  | j :: js => ofJson j :: ofJsonItems js

end

mutual

/-- Whether a record satisfies a filter. Parts are tried from the left until one decides. -/
def holds (properties : Properties) : Filter → Except FilterError Bool
  | .all parts => holdsAll properties parts
  | .any parts => holdsAny properties parts
  | .test t => t.bind fun t => t.holds properties

def holdsAll (properties : Properties) : List Filter → Except FilterError Bool
  | [] => .ok true
  | f :: fs =>
    match holds properties f with
    | .ok true => holdsAll properties fs
    | r => r

def holdsAny (properties : Properties) : List Filter → Except FilterError Bool
  | [] => .ok false
  | f :: fs =>
    match holds properties f with
    | .ok false => holdsAny properties fs
    | r => r

end

end Filter
end DocTables
