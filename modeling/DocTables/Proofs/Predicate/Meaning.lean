import Mathlib.Data.List.Infix
import Mathlib.Data.String.Basic
import DocTables.Predicate
import DocTables.Text.Digit
import DocTables.Text.LowerCase

/-! What predicates say about decoded values, whatever form a store compares them in. -/
namespace DocTables

/-- A part of a value that has an order or can be equal to an operand. -/
inductive Scalar where
  | text (s : String)
  | number (x : Binary64)
  | bool (b : Bool)

namespace Scalar

/-- Equality, by value for numbers. -/
def Equal : Scalar → Scalar → Prop
  | text s, text t => s = t
  | number x, number y => x.numEq y = true
  | bool a, bool b => a = b
  | _, _ => False

def Less : Scalar → Scalar → Prop
  | text s, text t => s < t
  | number x, number y => x.compare? y = some .lt
  | bool a, bool b => a < b
  | _, _ => False

end Scalar

namespace Value

/-- The number of a unique id, by itself or behind the last hyphen of a text. -/
def shownNumber? : Value → Option Int64
  | .string s =>
    (Text.decimal? (s.toList.reverse.takeWhile (· != '-')).reverse).bind fun n => int64? n
  | v => v.int?

/-- What comparisons look at in a decoded value: a date by its start, a unique id by its number. -/
def scalar? (t : PropertyType) (v : Value) : Option Scalar :=
  match t with
  | .number => v.float?.map .number
  | .uniqueId => v.shownNumber?.map fun n => .number (.ofInt n.toInt)
  | .checkbox => v.bool?.map .bool
  | .date => (v.named? "start").map .text
  | .title | .richText | .url | .email | .phoneNumber | .select | .status | .createdTime
  | .lastEditedTime => v.string?.map .text
  | .multiSelect | .people | .files | .relation | .createdBy | .lastEditedBy => none

/-- What comparisons look at in an operand. Options and users may be given under a field. -/
def operandScalar? (t : PropertyType) (v : Value) : Option Scalar :=
  match t with
  | .number => v.float?.map .number
  | .uniqueId =>
    let shown := v.string?.elim v fun s => .string (Text.trim s)
    shown.shownNumber?.map fun n => .number (.ofInt n.toInt)
  | .checkbox => v.bool?.map .bool
  | .date | .createdTime | .lastEditedTime => (v.named? "start").map .text
  | .select | .status | .multiSelect => (v.named? "name").map .text
  | .people | .createdBy | .lastEditedBy => (v.named? "id").map .text
  | .title | .richText | .url | .email | .phoneNumber => v.string?.map .text
  | .files | .relation => none

/-- Texts contain their parts regardless of case, lists of names their members, and who wrote a
record is that user alone. -/
def Contains (t : PropertyType) (v : Value) (needle : String) : Prop :=
  match t with
  | .title | .richText =>
    ∃ s, v = .string s ∧ Text.lowerChars needle.toList <:+: Text.lowerChars s.toList
  | .multiSelect | .people => ∃ items, v = .array items ∧ .string needle ∈ items
  | .createdBy | .lastEditedBy => v = .string needle
  | _ => False

def IsEmpty (v : Value) : Prop := v = .null ∨ v = .string "" ∨ v = .array []

@[simp] theorem isEmpty_null : IsEmpty .null := .inl rfl

@[simp] theorem isEmpty_string (s : String) : IsEmpty (.string s) ↔ s = "" := by simp [IsEmpty]

@[simp] theorem isEmpty_array (items : List Value) : IsEmpty (.array items) ↔ items = [] := by
  simp [IsEmpty]

end Value

namespace Comparison

/-- The value is present and stands in a relation to the operand. -/
def Related (r : Scalar → Scalar → Prop) (t : PropertyType) (v : Option Value) (operand : Value) :
    Prop :=
  ∃ a b, v.bind (·.scalar? t) = some a ∧ operand.operandScalar? t = some b ∧ r a b

/-- The comparison holds of a value that may be absent. -/
def Holds (op : Comparison) (t : PropertyType) (v : Option Value) (operand : Value) : Prop :=
  match op with
  | eq => Related Scalar.Equal t v operand
  | neq => ¬ Related Scalar.Equal t v operand
  | contains => ∃ u s, v = some u ∧ operand.operandScalar? t = some (.text s) ∧ u.Contains t s
  | gt => Related (fun a b => b.Less a) t v operand
  | gte => Related (fun a b => b.Less a ∨ a.Equal b) t v operand
  | lt => Related Scalar.Less t v operand
  | lte => Related (fun a b => a.Less b ∨ a.Equal b) t v operand

end Comparison

namespace Predicate

mutual

/-- The predicate holds of the values that properties have, if any. -/
def Means (value? : PropertyRef → Option Value) : Predicate → Prop
  | .compare op p operand => op.Holds p.type (value? p) operand
  | .emptiness p true => ∀ v, value? p = some v → v.IsEmpty
  | .emptiness p false => ¬ ∀ v, value? p = some v → v.IsEmpty
  | .combine .and parts => MeansAll value? parts
  | .combine .or parts => MeansAny value? parts

def MeansAll (value? : PropertyRef → Option Value) : List Predicate → Prop
  | [] => True
  | p :: ps => p.Means value? ∧ MeansAll value? ps

def MeansAny (value? : PropertyRef → Option Value) : List Predicate → Prop
  | [] => False
  | p :: ps => p.Means value? ∨ MeansAny value? ps

end

mutual

/-- The properties a predicate refers to. -/
def refs : Predicate → List PropertyRef
  | .compare _ p _ => [p]
  | .emptiness p _ => [p]
  | .combine _ parts => refsOf parts

def refsOf : List Predicate → List PropertyRef
  | [] => []
  | p :: ps => p.refs ++ refsOf ps

end

theorem meansAll_iff {value? : PropertyRef → Option Value} {ps : List Predicate} :
    MeansAll value? ps ↔ ∀ p ∈ ps, p.Means value? := by
  induction ps with
  | nil => simp [MeansAll]
  | cons p ps ih => simp [MeansAll, ih]

theorem meansAny_iff {value? : PropertyRef → Option Value} {ps : List Predicate} :
    MeansAny value? ps ↔ ∃ p ∈ ps, p.Means value? := by
  induction ps with
  | nil => simp [MeansAny]
  | cons p ps ih => simp [MeansAny, ih]

end Predicate
end DocTables
