import DocTables.Json

/-! What a store exchanges: records, collections with their schemas, queries and their answers. -/
namespace DocTables

/-- The names of a collection and of the data source that holds its records. -/
structure CollectionRef where
  collection : String
  source : String
  deriving DecidableEq, Repr

/-- A collection with the schema of its records. -/
structure Collection where
  id : String
  source : String
  properties : Properties

namespace Collection

def ref (c : Collection) : CollectionRef := ⟨c.id, c.source⟩

end Collection

structure Record where
  id : String
  archived : Bool
  created : Option String
  edited : Option String
  url : Option String
  properties : Properties

/-- Which records of a data source to list: a filter and a sort list in the grammar of the store,
at most how many at once, and where to go on. -/
structure Query where
  filter : Option Json
  sorts : Option Json
  limit : Option Nat
  cursor : Option String

/-- Some records of an answer and where the next ones start. Some stores do not say whether there
are more. -/
structure RecordPage where
  records : List Record
  next : Option String
  more : Option Bool

/-- A change to one record: some of its properties, or whether it is in the archive. -/
inductive Change where
  | properties (changes : Properties)
  | archived (flag : Bool)

namespace Change

def toJson : Change → Json
  | properties changes => .ofFields [("properties", .object changes)]
  | archived flag => .ofFields [("archived", .bool flag)]

end Change
end DocTables
