import DocTables.Predicate.Filter
import DocTables.Relation.Expansion

/-! Reading rows of a table: one page, or page after page. -/
namespace DocTables

/-- Which rows a query finds, and in which order. A filter or a sort list in the grammar of the
store is sent as it is and goes before what is said in terms of columns. -/
structure Criteria where
  predicate : Option Predicate := none
  order : List SortKey := []
  filter : Option Json := none
  sorts : Option Json := none

structure Selection where
  criteria : Criteria := {}
  length : Option Nat := none
  cursor : Option String := none
  expand : KeyMap Rendering := .empty

structure RowPage where
  rows : List DecodedRecord
  next : Option String
  more : Bool

namespace Criteria

def filterJson (c : Criteria) : Except TableError (Option Json) :=
  match c.filter, c.predicate with
  | some j, _ => .ok (some j)
  | none, some p => p.toFilter.map some
  | none, none => .ok none

def sortsJson (c : Criteria) : Option Json :=
  c.sorts <|> if c.order.isEmpty then none else some (SortKey.toSorts c.order)

def query (c : Criteria) (limit : Nat) (cursor : Option String) : Except TableError Query := do
  return ⟨← c.filterJson, c.sortsJson, some limit, cursor⟩

end Criteria

namespace Table
variable {σ : Type} (stores : String → Store σ)

/-- Runs a query and decodes its page. Without a word about more, a cursor means more. -/
def list (t : Table) (q : Query) : TableM σ RowPage := do
  let page ← asking (.list t.title) ((stores t.store).query t.collection.source q)
  let rows ← page.records.mapM t.decode
  return ⟨rows, page.next, page.more.getD page.next.isSome⟩

def selectionQuery (t : Table) (s : Selection) : Except TableError Query :=
  s.criteria.query (t.limits.pageLength s.length) s.cursor

/-- One page of rows, its references expanded as asked. -/
def select (t : Table) (target? : String → Option Table) (s : Selection) : TableM σ RowPage := do
  let q ← checked (t.selectionQuery s)
  let page ← t.list stores q
  if s.expand.isEmpty then return page
  let rows ← t.expand stores target? page.rows s.expand
  return { page with rows := rows }

/-- The rows of at most `n` pages, with the cursor of the next one if there are more. -/
def selectPages (t : Table) (target? : String → Option Table) :
    Nat → Selection → TableM σ (List DecodedRecord × Option String)
  | 0, s => return ([], s.cursor)
  | n + 1, s => do
    let page ← t.select stores target? s
    match page.next with
    | some cursor =>
      if page.more then
        let (rows, rest) ← selectPages t target? n { s with cursor := some cursor }
        return (page.rows ++ rows, rest)
      else return (page.rows, none)
    | none => return (page.rows, none)

end Table
end DocTables
