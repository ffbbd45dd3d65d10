import DocTables.Codec.Wire
import DocTables.Table.Error

/-! Columns: a property of the store under a local key, with its codec and constraints. -/
namespace DocTables

structure Column where
  name : String
  codec : Codec
  mayBeAbsent : Bool := false
  acceptsNull : Bool := false
  fallback? : Option Value := none

namespace Column

/-- A required column of a type. -/
def ofType (t : PropertyType) (name : String) : Column := ⟨name, .ofType t, false, false, none⟩

def type (c : Column) : PropertyType := c.codec.type

def isMaintained (c : Column) : Bool := c.type.isMaintained

/-- May be left out of an inserted row. -/
def optional (c : Column) : Column := { c with mayBeAbsent := true }

/-- Accepts null and yields it when the property is missing. -/
def nullable (c : Column) : Column := { c with acceptsNull := true }

/-- Takes `v` when left out of an inserted row. -/
def withDefault (v : Value) (c : Column) : Column := { c with fallback? := some v }

/-- Makes a text column the title of its collection. -/
def asTitle (c : Column) : Column := { c with codec := .title }

/-- Declares the options of a choice column, or lifts the restriction to them. -/
def declareOptions (options : Option (List String)) (c : Column) : Column :=
  { c with
    codec :=
      match c.type with
      | .multiSelect => .multiSelect options
      | .status => .choice .status options
      | _ => .choice .select options }

/-- Declares the label in front of unique ids. -/
def declareLabel (label : String) (c : Column) : Column :=
  { c with codec := .uniqueId (some label) }

/-- Declares the display format of a number. -/
def declareFormat (format : String) (c : Column) : Column :=
  { c with codec := .number (some format) }

end Column

/-- The columns of a table by local key. -/
abbrev Columns := KeyMap Column

namespace Columns

def column? (columns : Columns) (key : String) : Except TableError Column :=
  match columns.get? key with
  | some c => .ok c
  | none => .error (.noColumn key)

/-- The smallest key of a column that stands for the property `name`. -/
def keyOf? (columns : Columns) (name : String) : Option String :=
  columns.findKey? fun c => c.name = name

/-- No two columns stand for one property. -/
def NamesDistinct (columns : Columns) : Prop := (columns.values.map Column.name).Nodup

end Columns
end DocTables
