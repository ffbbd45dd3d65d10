import DocTables.Column
import DocTables.Record

/-!
Rows against properties: rows are checked and lowered to the payloads of a create or an update, and
records are read back into rows.
-/
namespace DocTables

/-- A row with the record it was read from. -/
structure DecodedRecord where
  row : Row
  record : Record

namespace Columns

def checkKeys (columns : Columns) (row : Row) : Except TableError Unit :=
  match row.keys.find? fun k => !columns.contains k with
  | some k => .error (.noColumn k)
  | none => .ok ()

/-- The payload of a supplied value; null clears a nullable column. -/
def payload (key : String) (c : Column) (v : Value) : Except TableError Json :=
  if c.isMaintained then .error (.maintained key)
  else if v.isNull then
    if c.acceptsNull then .ok c.codec.empty else .error (.nullRefused key)
  else (c.codec.toWire v).mapError (.badValue key)

/-- The value to insert in a column: the supplied one, else the default. A column without either
is left out when the store maintains it or it is optional. -/
def inserted (key : String) (c : Column) (row : Row) : Except TableError (Option Value) :=
  match row.get? key with
  | some v => .ok (some v)
  | none =>
    if c.isMaintained then .ok none
    else
      match c.fallback? with
      | some v => .ok (some v)
      | none => if c.mayBeAbsent then .ok none else .error (.valueMissing key)

def insertField (row : Row) (e : String × Column) : Except TableError (Option (String × Json)) := do
  match ← inserted e.1 e.2 row with
  | none => return none
  | some v => return some (e.2.name, ← payload e.1 e.2 v)

/-- The properties of a new record, column by column in key order. -/
def insertProperties (columns : Columns) (row : Row) : Except TableError Properties := do
  checkKeys columns row
  let entries ← columns.entries.mapM (insertField row)
  return .ofList (entries.filterMap id)

def updateField (columns : Columns) (e : String × Value) : Except TableError (String × Json) := do
  let c ← columns.column? e.1
  return (c.name, ← payload e.1 c e.2)

/-- The properties that an update changes: those of the supplied keys, at least one. -/
def updateProperties (columns : Columns) (patch : Row) : Except TableError Properties := do
  checkKeys columns patch
  let entries ← patch.entries.mapM (updateField columns)
  if entries.isEmpty then .error .nothingToUpdate else return .ofList entries

/-- The value of a column in a record. A missing property yields the default, else null for a
nullable column, else nothing. -/
def decodeField (properties : Properties) (e : String × Column) :
    Except TableError (Option (String × Value)) :=
  match properties.get? e.2.name with
  | some w => ((e.2.codec.ofWire w).mapError (.badValue e.1)).map fun v => some (e.1, v)
  | none =>
    match e.2.fallback? with
    | some v => .ok (some (e.1, v))
    | none => .ok (if e.2.acceptsNull then some (e.1, .null) else none)

def readRow (columns : Columns) (properties : Properties) : Except TableError Row := do
  let entries ← columns.entries.mapM (decodeField properties)
  return ⟨entries.filterMap id⟩

def decode (columns : Columns) (record : Record) : Except TableError DecodedRecord := do
  return ⟨← columns.readRow record.properties, record⟩

end Columns
end DocTables
