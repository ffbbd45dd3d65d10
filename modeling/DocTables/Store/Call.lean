import DocTables.Record.Document
import DocTables.Store.Error

/-!
The calls that a document store answers. A store over states `σ` gives for each call an answer or
an error, and the next state.
-/
namespace DocTables

inductive Method where
  | readSchema | addCollection | extendSchema | addRecord | readRecord | changeRecord | query
  deriving DecidableEq, Repr

inductive Call where
  | readSchema (collection : String)
  | addCollection (parent title : String) (properties : Properties)
  | extendSchema (source : String) (properties : Properties)
  | addRecord (source : String) (properties : Properties)
  | readRecord (record : String)
  | changeRecord (record : String) (change : Change)
  | query (source : String) (query : Query)

inductive Answer where
  | schema (collection : Collection)
  | created (collection : CollectionRef)
  | done
  | record (record : Record)
  | page (page : RecordPage)

namespace Method

def all : List Method :=
  [readSchema, addCollection, extendSchema, addRecord, readRecord, changeRecord, query]

def name : Method → String
  | readSchema => "retrieve_collection_schema"
  | addCollection => "create_collection"
  | extendSchema => "update_collection_schema"
  | addRecord => "create_record"
  | readRecord => "retrieve_record"
  | changeRecord => "update_record"
  | query => "query_records"

def ofName? (s : String) : Option Method := all.find? fun m => m.name = s

end Method

namespace Call

def method : Call → Method
  | readSchema _ => .readSchema
  | addCollection .. => .addCollection
  | extendSchema .. => .extendSchema
  | addRecord .. => .addRecord
  | readRecord _ => .readRecord
  | changeRecord .. => .changeRecord
  | query .. => .query

end Call

namespace Answer

def toJson : Answer → Json
  | schema c => c.toJson
  | created c => c.toJson
  | done => .null
  | record r => r.toJson
  | page p => p.toJson

end Answer

/-- An action on a store: an error keeps the state that was reached. -/
abbrev StoreM (σ : Type) := ExceptT StoreError (StateM σ)

/-- What tables need from a store. Reading a record takes time: other calls may come between its
start and its end. -/
structure Store (σ : Type) where
  readSchema : (collection : String) → StoreM σ Collection
  addCollection : (parent title : String) → Properties → StoreM σ CollectionRef
  extendSchema : (source : String) → Properties → StoreM σ Unit
  addRecord : (source : String) → Properties → StoreM σ Record
  startRead : (record : String) → StoreM σ Unit
  finishRead : (record : String) → StoreM σ Record
  changeRecord : (record : String) → Change → StoreM σ Record
  query : (source : String) → Query → StoreM σ RecordPage

namespace Store
variable {σ τ : Type}

def readRecord (s : Store σ) (record : String) : StoreM σ Record := do
  s.startRead record
  s.finishRead record

def run (s : Store σ) : Call → StoreM σ Answer
  | .readSchema collection => Answer.schema <$> s.readSchema collection
  | .addCollection parent title properties =>
    Answer.created <$> s.addCollection parent title properties
  | .extendSchema source properties => (fun _ => Answer.done) <$> s.extendSchema source properties
  | .addRecord source properties => Answer.record <$> s.addRecord source properties
  | .readRecord record => Answer.record <$> s.readRecord record
  | .changeRecord record change => Answer.record <$> s.changeRecord record change
  | .query source query => Answer.page <$> s.query source query

/-- Makes calls one after the other, whatever becomes of each. -/
def runAll (s : Store σ) : List Call → StateM σ (List (Except StoreError Answer))
  | [] => return []
  | c :: cs => do
    let a ← (s.run c).run
    let rest ← s.runAll cs
    return a :: rest

/-- A store as a part of a larger state. -/
def within (act : {α : Type} → StoreM σ α → StoreM τ α) (s : Store σ) : Store τ where
  readSchema collection := act (s.readSchema collection)
  addCollection parent title properties := act (s.addCollection parent title properties)
  extendSchema source properties := act (s.extendSchema source properties)
  addRecord source properties := act (s.addRecord source properties)
  startRead record := act (s.startRead record)
  finishRead record := act (s.finishRead record)
  changeRecord record change := act (s.changeRecord record change)
  query source query := act (s.query source query)

end Store
end DocTables
