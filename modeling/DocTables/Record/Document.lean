import DocTables.Json.Decode
import DocTables.Column.Row

/-! The documents of collections, records, queries and their answers. -/
namespace DocTables

namespace CollectionRef

def toJson (c : CollectionRef) : Json :=
  .ofFields [("collection_id", .string c.collection), ("data_source_id", .string c.source)]

def ofJson? (j : Json) : Option CollectionRef := do
  let fields ← j.structure? ["collection_id", "data_source_id"]
  return ⟨← Json.required fields "collection_id" Json.string?,
    ← Json.required fields "data_source_id" Json.string?⟩

end CollectionRef

namespace Collection

def toJson (c : Collection) : Json :=
  .ofFields [("id", .string c.id), ("data_source_id", .string c.source),
    ("properties", .object c.properties)]

def ofJson? (j : Json) : Option Collection := do
  let fields ← j.structure? ["id", "data_source_id", "properties"]
  return ⟨← Json.required fields "id" Json.string?,
    ← Json.required fields "data_source_id" Json.string?,
    ← Json.defaulted fields "properties" Json.object? .empty⟩

end Collection

namespace Record

def toJson (r : Record) : Json :=
  .ofFields ([("id", .string r.id), ("archived", .bool r.archived),
      ("properties", .object r.properties)] ++
    Json.present "created_time" (r.created.map .string) ++
    Json.present "last_edited_time" (r.edited.map .string) ++
    Json.present "url" (r.url.map .string))

def fieldNames : List String :=
  ["id", "archived", "created_time", "last_edited_time", "url", "properties"]

def ofJson? (j : Json) : Option Record := do
  let fields ← j.structure? fieldNames
  return ⟨← Json.required fields "id" Json.string?,
    ← Json.defaulted fields "archived" Json.bool? false,
    ← Json.optional fields "created_time" Json.string?,
    ← Json.optional fields "last_edited_time" Json.string?,
    ← Json.optional fields "url" Json.string?,
    ← Json.defaulted fields "properties" Json.object? .empty⟩

end Record

namespace Query

def toJson (q : Query) : Json :=
  .ofFields (Json.present "filter" q.filter ++ Json.present "sorts" q.sorts ++
    Json.present "page_size" (q.limit.map fun n => .int n) ++
    Json.present "start_cursor" (q.cursor.map .string))

def ofJson? (j : Json) : Option Query := do
  let fields ← j.structure? ["filter", "sorts", "page_size", "start_cursor"]
  return ⟨← Json.optional fields "filter" Json.document?,
    ← Json.optional fields "sorts" Json.document?,
    ← Json.optional fields "page_size" (Json.nat? UInt32.size),
    ← Json.optional fields "start_cursor" Json.string?⟩

end Query

namespace RecordPage

def toJson (r : RecordPage) : Json :=
  .ofFields ([("results", .array (r.records.map Record.toJson)),
      ("next_cursor", .ofString? r.next)] ++
    Json.present "has_more" (r.more.map .bool))

def fieldNames : List String := ["results", "next_cursor", "has_more"]

def ofJson? (j : Json) : Option RecordPage := do
  let fields ← j.structure? fieldNames
  return ⟨← Json.defaulted fields "results" (Json.list? Record.ofJson?) [],
    ← Json.optional fields "next_cursor" Json.string?,
    ← Json.optional fields "has_more" Json.bool?⟩

end RecordPage

namespace DecodedRecord

def rowJson (e : DecodedRecord) : Json := (Value.map e.row).toJson

def toJson (e : DecodedRecord) : Json := .ofFields [("data", e.rowJson), ("page", e.record.toJson)]

def readRow (j : Json) : Option Row := j.object?.map (·.map Value.ofJson)

def ofJson? (j : Json) : Option DecodedRecord := do
  let fields ← j.structure? ["data", "page"]
  return ⟨← Json.required fields "data" readRow, ← Json.required fields "page" Record.ofJson?⟩

/-- The row, read back from its document. -/
def reread (e : DecodedRecord) : Value := .ofJson e.rowJson

end DecodedRecord
end DocTables
