import DocTables.Table

/-!
Links: relations declared in the schemas of their sources. All links of a list are checked before
any schema is touched, and the links of one source make one schema update.
-/
namespace DocTables

/-- Whether the target shows the relation too, and as which property. -/
inductive Sidedness where
  | oneWay
  | twoWay (name id : Option String)
  deriving DecidableEq, Repr

structure Link where
  source : Table
  key : String
  target : Table
  sides : Sidedness

namespace Sidedness

def name : Sidedness → String
  | oneWay => "single_property"
  | twoWay _ _ => "dual_property"

def toJson : Sidedness → Json
  | oneWay => .ofFields []
  | twoWay name id =>
    .ofFields ((name.map fun s => ("synced_property_name", Json.string s)).toList ++
      (id.map fun s => ("synced_property_id", Json.string s)).toList)

end Sidedness

/-- The configuration that declares a property as a relation to the records of a data source. -/
def relationConfig (source : String) (sides : Sidedness) : Json :=
  .ofFields [("relation", .ofFields [("data_source_id", .string source),
    ("type", .string sides.name), (sides.name, sides.toJson)])]

def relationSchema (property source : String) (sides : Sidedness) : Properties :=
  .ofList [(property, relationConfig source sides)]

namespace Link

/-- The source column of a link between tables of one store. -/
def column (l : Link) : Except TableError Column :=
  if l.source.store = l.target.store then l.source.relationColumn l.key
  else .error (.storesDiffer l.source.title l.target.title)

/-- The property that a link declares. -/
def declaration (l : Link) : Except TableError (Table × String × Json) := do
  let c ← l.column
  return (l.source, c.name, relationConfig l.target.collection.source l.sides)

/-- Adds a declaration to the schema updates, which are in the order of the table numbers. -/
def addDeclaration (d : Table × String × Json) : List (Table × Properties) →
    List (Table × Properties)
  | [] => [(d.1, .ofList [d.2])]
  | (t, ps) :: us =>
    if d.1.id = t.id then (t, ps.insert d.2.1 d.2.2) :: us
    else if d.1.id < t.id then (d.1, .ofList [d.2]) :: (t, ps) :: us
    else (t, ps) :: addDeclaration d us

/-- One schema update per source of a list of links, if all of them are valid. -/
def updates (links : List Link) : Except TableError (List (Table × Properties)) := do
  let declarations ← links.mapM declaration
  return declarations.foldl (fun us d => addDeclaration d us) []

variable {σ : Type} (stores : String → Store σ)

/-- Sends schema updates until one fails. -/
def send (updates : List (Table × Properties)) : TableM σ Unit :=
  updates.forM fun u =>
    asking (.link u.1.title) ((stores u.1.store).extendSchema u.1.collection.source u.2)

end Link
end DocTables
