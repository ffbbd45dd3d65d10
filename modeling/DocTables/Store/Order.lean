import DocTables.Record
import DocTables.StableSort
import DocTables.Store.Facet

/-!
Sorting records by a sort list. The sort is stable, and records without a value come last in both
directions.
-/
namespace DocTables

/-- One entry of a sort list, as far as it matters. -/
structure SortRule where
  timestamp : Option String
  property : Option String
  descending : Bool
  deriving DecidableEq, Repr

namespace SortRule

def ofJson (j : Json) : SortRule :=
  ⟨j.field? "timestamp", j.field? "property", j.field? "direction" = some "descending"⟩

/-- A time of the record itself, or a property under the type that it declares. -/
def facet (s : SortRule) (r : Record) : Facet :=
  match s.timestamp with
  | some t => .ofString? (if t = "created_time" then r.created else r.edited)
  | none =>
    match s.property.bind r.properties.get? with
    | none => .empty
    | some p => p.declaredType?.elim .empty fun key => Facet.ofProperty key p

def compareFacets (descending : Bool) (c d : Facet) : Ordering :=
  match c.isEmpty, d.isEmpty with
  | true, true => .eq
  | true, false => .gt
  | false, true => .lt
  | false, false =>
    let o := (c.compare? d).getD .eq
    if descending then o.swap else o

/-- Compares two records by the entries of a sort list, the first that tells them apart. -/
def compareBy : List SortRule → Record → Record → Ordering
  | [], _, _ => .eq
  | s :: ss, a, b => (compareFacets s.descending (s.facet a) (s.facet b)).then (compareBy ss a b)

/-- Sorts records by a sort list; anything but an array asks for no order. -/
def sortBy (sorts : Json) (records : List Record) : List Record :=
  match sorts with
  | .array items =>
    StableSort.sort (fun a b => compareBy (items.map ofJson) a b == .lt) records
  | _ => records

end SortRule
end DocTables
