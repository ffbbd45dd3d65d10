import DocTables.Store.Filter
import DocTables.Store.Memory
import DocTables.Store.Order
import DocTables.Text.Digit

/-!
Listing the records of a store in memory: filtered, sorted, and cut into pages. A cursor names the
offset of the next page.
-/
namespace DocTables.Memory

def matching (filter : Option Json) (records : List Record) : Except StoreError (List Record) :=
  match filter with
  | none => .ok records
  | some j =>
    let f := Filter.ofJson j
    (records.filterM fun r => f.holds r.properties).mapError .badFilter

/-- Every record that a query asks for, in its order, pages aside. -/
def listing (m : Memory) (source : String) (q : Query) : Except StoreError (List Record) := do
  let _ ← m.collectionOf source
  let records ← matching q.filter (m.live source)
  return q.sorts.elim records fun sorts => SortRule.sortBy sorts records

def cursorMark : List Char := "offset-".toList

def cursor (offset : Nat) : String := String.ofList cursorMark ++ toString offset

/-- The offset in a cursor; it may have a plus sign and has at most 64 bits. -/
def offset? (cursor : String) : Option Nat :=
  let cs := cursor.toList
  if cursorMark.isPrefixOf cs then
    let digits := cs.drop cursorMark.length
    let digits := if digits.head? = some '+' then digits.tail else digits
    (Text.decimal? digits).filter fun n => n < UInt64.size
  else none

def startOffset (cursor : Option String) : Except StoreError Nat :=
  match cursor with
  | none => .ok 0
  | some c => (offset? c).elim (.error (.badCursor c)) .ok

/-- The length of a page when the query does not say. -/
def usualLimit : Nat := 100

/-- The page of at most `limit` records from `offset` on. -/
def page (hidesMore : Bool) (records : List Record) (offset limit : Nat) : RecordPage :=
  let found := (records.drop offset).take limit
  let stop := offset + found.length
  let more := decide (stop < records.length)
  ⟨found, if more then some (cursor stop) else none, if hidesMore then none else some more⟩

/-- A filter is reported before a cursor when both are bad. -/
def list (source : String) (q : Query) (m : Memory) : Except StoreError RecordPage := do
  let records ← m.listing source q
  let offset ← startOffset q.cursor
  return page m.hidesMore records offset (max 1 (q.limit.getD usualLimit))

end DocTables.Memory
