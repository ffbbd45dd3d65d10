import DocTables.Http.Connection
import DocTables.Http.Exchange

/-!
A document store behind an HTTP interface: which request each call makes, and how the answers are
read. Collections are databases with a data source each, records are pages.
-/
namespace DocTables.Http

def recordShape : Json.Shape := .ofNames Record.fieldNames

def readRecord (o : Json.Outline) : Option Record := (o.json? recordShape).bind Record.ofJson?

def recordPageShape : Json.Shape :=
  .record [("results", .each recordShape), ("next_cursor", .whole), ("has_more", .whole)]

def readRecordPage (o : Json.Outline) : Option RecordPage :=
  (o.json? recordPageShape).bind RecordPage.ofJson?

/-- The id of a database and those of its data sources. -/
structure Database where
  id : String
  sources : List String

namespace Database

def readSource (j : Json) : Option String := do
  let fields ← j.structure? ["id"]
  Json.required fields "id" Json.string?

def shape : Json.Shape := .record [("id", .whole), ("data_sources", .each (.ofNames ["id"]))]

def read (o : Json.Outline) : Option Database := do
  let j ← o.json? shape
  let fields ← j.structure? ["id", "data_sources"]
  return ⟨← Json.required fields "id" Json.string?,
    ← Json.defaulted fields "data_sources" (Json.list? readSource) []⟩

/-- A database stands for its first data source. -/
def ref (d : Database) : Except StoreError CollectionRef :=
  match d.sources with
  | [] => .error (.noDataSource d.id)
  | source :: _ => .ok ⟨d.id, source⟩

end Database

def readProperties (o : Json.Outline) : Option Properties := do
  let j ← o.json? (.ofNames ["properties"])
  let fields ← j.structure? ["properties"]
  Json.defaulted fields "properties" Json.object? .empty

def newCollection (parent title : String) (properties : Properties) : Json :=
  .ofFields [
    ("parent", .ofFields [("type", .string "page_id"), ("page_id", .string parent)]),
    ("title", .array [.ofFields [("type", .string "text"),
      ("text", .ofFields [("content", .string title)])]]),
    ("initial_data_source", .ofFields [("properties", .object properties)])]

def newRecord (source : String) (properties : Properties) : Json :=
  .ofFields [
    ("parent", .ofFields [("type", .string "data_source_id"), ("data_source_id", .string source)]),
    ("properties", .object properties)]

namespace Client

def given {α : Type} (r : Except StoreError α) : StoreM Exchange α := ExceptT.mk (pure r)

def readSchema (c : Client) (id : String) : StoreM Exchange Collection := do
  let database ← c.ask .get (.database id) none Database.read
  let ref ← given database.ref
  let properties ← c.ask .get (.dataSource ref.source) none readProperties
  return ⟨ref.collection, ref.source, properties⟩

def addCollection (c : Client) (parent title : String) (properties : Properties) :
    StoreM Exchange CollectionRef := do
  let database ← c.ask .post .databases (some (newCollection parent title properties)) Database.read
  given database.ref

/-- The store behind a client. Reading a record makes its request when it ends. -/
def store (c : Client) : Store Exchange where
  readSchema id := c.readSchema id
  addCollection parent title properties := c.addCollection parent title properties
  extendSchema source properties :=
    c.ask .patch (.dataSource source) (some (.ofFields [("properties", .object properties)]))
      fun o => (o.json? .whole).map fun _ => ()
  addRecord source properties :=
    c.ask .post .pages (some (newRecord source properties)) readRecord
  startRead _ := pure ()
  finishRead id := c.ask .get (.page id) none readRecord
  changeRecord id change := c.ask .patch (.page id) (some change.toJson) readRecord
  query source q :=
    c.ask .post (.dataSourceQuery source) (some q.toJson) readRecordPage

end Client
end DocTables.Http
