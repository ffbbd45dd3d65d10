import DocTables.Column.Row
import DocTables.Column.Schema
import DocTables.Store.Call

/-!
Tables: columns bound to a collection of a store. Operations on tables run over the states of any
stores and report the store's errors together with what the table was doing.
-/
namespace DocTables

/-- Bounds that the tables of one context share: the usual and the greatest length of a page, how
many records are read at once, and how many rows one update or move may reach through a query. -/
structure Limits where
  usualPage : Nat := 25
  greatestPage : Nat := 100
  readers : Nat := 4
  updateBatch : Nat := 100
  archiveBatch : Nat := 100
  deriving DecidableEq, Repr

namespace Limits

/-- A page length between 1 and the greatest allowed one, which counts as at least 1. -/
def pageLength (l : Limits) (requested : Option Nat) : Nat :=
  max 1 (min (requested.getD l.usualPage) (max 1 l.greatestPage))

end Limits

/-- A table. Handles of one table share its number; `relations` is the number of the relations
that it belongs to. -/
structure Table where
  id : Nat
  title : String
  columns : Columns
  collection : CollectionRef
  store : String
  relations : Nat
  limits : Limits

/-- Where the collection of a table comes from: it is there, or is made under a parent page. -/
inductive Binding where
  | existing (collection : String)
  | under (parent : String)
  deriving DecidableEq, Repr

/-- An action of tables: an error keeps the state that was reached. -/
abbrev TableM (σ : Type) := ExceptT TableError (StateM σ)

/-- Says what the store was asked for when it fails. -/
def asking {σ α : Type} (use : StoreUse) (act : StoreM σ α) : TableM σ α :=
  ExceptT.adapt (fun e => .storeFailed use e.message) act

/-- A local check as an action. -/
def checked {σ α : Type} (r : Except TableError α) : TableM σ α := ExceptT.mk (pure r)

namespace Table
variable {σ : Type} (stores : String → Store σ)

/-- Checks columns against a collection, or makes one for them. -/
def bind (store title : String) (columns : Columns) (binding : Binding) : TableM σ CollectionRef :=
  match binding with
  | .under parent =>
    asking (.addCollection title) ((stores store).addCollection parent title columns.schema)
  | .existing collection => do
    let c ← asking (.bind title collection) ((stores store).readSchema collection)
    checked (columns.checkSchema c.properties)
    return c.ref

def decode (t : Table) (record : Record) : TableM σ DecodedRecord :=
  checked (t.columns.decode record)

def row (t : Table) (record : String) : TableM σ DecodedRecord := do
  let r ← asking (.read record t.title) ((stores t.store).readRecord record)
  t.decode r

def column? (t : Table) (key : String) : Except TableError Column := t.columns.column? key

/-- Only relation columns can be related, linked and expanded. -/
def relationColumn (t : Table) (key : String) : Except TableError Column := do
  let c ← t.column? key
  if c.type = .relation then return c else .error (.notRelation key)

end Table
end DocTables
