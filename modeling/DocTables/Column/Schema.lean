import DocTables.Column
import DocTables.Record

/-! Schemas from columns, columns from schemas, and whether the two agree. -/
namespace DocTables

namespace Columns

/-- The properties that declare the columns. -/
def schema (columns : Columns) : Properties :=
  .ofList (columns.entries.map fun e => (e.2.name, e.2.codec.config))

/-- The type that a schema declares for a property. -/
def declared? (properties : Properties) (name : String) : Option String :=
  (properties.get? name).bind Json.declaredType?

def agrees (properties : Properties) (e : String × Column) : Bool :=
  declared? properties e.2.name == some e.2.type.key

/-- Every column has a property of its type; otherwise the first that has none is the error. -/
def checkSchema (columns : Columns) (properties : Properties) : Except TableError Unit :=
  match columns.entries.find? fun e => !agrees properties e with
  | none => .ok ()
  | some (key, c) =>
    .error (.schemaDiffers key c.name c.type (declared? properties c.name))

end Columns

namespace Codec

/-- The codec of a property of type `t` configured by `config`. Declared options are not kept. -/
def ofConfig (t : PropertyType) (config : Json) : Codec :=
  let text? (k : String) := (config.get? t.key).bind (·.field? k)
  match t with
  | .number => number (text? "format")
  | .uniqueId => uniqueId (text? "prefix")
  | t => ofType t

end Codec

namespace Column

/-- An optional, nullable column for a property whose type is known. -/
def ofConfig? (name : String) (config : Json) : Option Column :=
  (config.declaredType?.bind PropertyType.ofKey?).map fun t =>
    ⟨name, Codec.ofConfig t config, true, true, none⟩

end Column

namespace Columns

/-- One column per property of a known type, under the name of the property. -/
def ofSchema (properties : Properties) : Columns :=
  ⟨properties.entries.filterMap fun e => (Column.ofConfig? e.1 e.2).map fun c => (e.1, c)⟩

end Columns
end DocTables
