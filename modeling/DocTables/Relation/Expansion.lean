import DocTables.Pool
import DocTables.StableSort
import DocTables.Table

/-!
Expanding relations: references in rows are replaced by the records they point to. Each record is
read once, by a bounded number of readers that take their jobs from one queue.
-/
namespace DocTables

/-- How a reference is shown: as the whole row with its record, or as some fields of the row. -/
inductive Rendering where
  | whole
  | fields (keys : List String)
  deriving DecidableEq, Repr

/-- A relation column to expand. -/
structure Expansion where
  key : String
  rendering : Rendering
  target : Table

/-- A record to read, with the table that decodes it. -/
structure Reading where
  table : Table
  record : String

/-- The id of a reference that has one. -/
def Value.reference? (v : Value) : Option String := v.field? "id"

namespace Record

/-- A record as an application value. -/
def toValue (r : Record) : Value :=
  .ofFields [("id", .string r.id), ("archived", .bool r.archived),
    ("created_time", .ofString? r.created), ("last_edited_time", .ofString? r.edited),
    ("url", .ofString? r.url), ("properties", .ofJson (.object r.properties))]

end Record

namespace Rendering

/-- What stands for a reference to a record that was read. -/
def render (r : Rendering) (record : String) (e : DecodedRecord) : Value :=
  match r with
  | whole => .ofFields [("data", .map e.row), ("page", e.record.toValue)]
  | fields keys =>
    .ofFields (("id", .string record) ::
      keys.filterMap fun k => (e.row.get? k).map fun v => (k, v))

end Rendering

namespace Expansion

/-- The references of a column in a row. -/
def references (x : Expansion) (row : Row) : List Value :=
  ((row.get? x.key).bind Value.array?).getD []

def recordIds (x : Expansion) (rows : List DecodedRecord) : List String :=
  rows.flatMap fun e => (x.references e.row).filterMap Value.reference?

/-- A reference without id stays; one to a record that was not read keeps its id alone. -/
def replace (x : Expansion) (found : Nat → String → Option DecodedRecord) (v : Value) : Value :=
  match v.reference? with
  | none => v
  | some id =>
    match found x.target.id id with
    | some e => x.rendering.render id e
    | none => .ofFields [("id", .string id)]

/-- Replaces the references of a column, if its value is a list. -/
def apply (found : Nat → String → Option DecodedRecord) (row : Row) (x : Expansion) : Row :=
  match row.get? x.key with
  | some (.array vs) => row.insert x.key (.array (vs.map (x.replace found)))
  | _ => row

end Expansion

namespace Reading
variable {σ : Type} (stores : String → Store σ)

def use (r : Reading) : StoreUse := .read r.record r.table.title

def start (r : Reading) : TableM σ Unit :=
  asking r.use ((stores r.table.store).startRead r.record)

def finish (r : Reading) : TableM σ DecodedRecord := do
  let record ← asking r.use ((stores r.table.store).finishRead r.record)
  r.table.decode record

/-- At least one reader, and no more than there are jobs. -/
def readers (bound jobs : Nat) : Nat := max 1 (min bound (max 1 jobs))

/-- Up to 30 readers stop as soon as one fails. More of them go on until the readers before it are
gone. -/
def notice (n : Nat) : Notice := if n ≤ 30 then .atOnce else .inOrder

/-- Carries out all jobs, at most `bound` at a time. -/
def all (bound : Nat) (jobs : List Reading) : TableM σ (List (Reading × DecodedRecord)) :=
  let n := readers bound jobs.length
  Pool.complete (notice n) (start stores) (finish stores) n jobs

/-- The distinct targets of expansions, by number. -/
def tablesOf (xs : List Expansion) : List Table :=
  StableSort.sort (fun a b => a.id < b.id) (xs.foldr add [])
where
  add (x : Expansion) (ts : List Table) : List Table :=
    if ts.any fun t => t.id = x.target.id then ts else x.target :: ts

/-- The jobs for a list of expansions: by table, then by record id, each once. -/
def ofExpansions (xs : List Expansion) (rows : List DecodedRecord) : List Reading :=
  (tablesOf xs).flatMap fun t =>
    let ids := (xs.filter fun x => x.target.id = t.id).flatMap (·.recordIds rows)
    (KeyMap.ofList (ids.map fun id => (id, ()))).keys.map fun id => ⟨t, id⟩

end Reading

namespace Table
variable {σ : Type} (stores : String → Store σ)

/-- The columns to expand with their registered targets, in key order. -/
def expansions (t : Table) (target? : String → Option Table) (spec : KeyMap Rendering) :
    Except TableError (List Expansion) :=
  spec.entries.mapM fun e => do
    let _ ← t.relationColumn e.1
    match target? e.1 with
    | some target => return ⟨e.1, e.2, target⟩
    | none => .error (.noTarget e.1)

/-- Rows with the references of some relation columns replaced by what they point to. -/
def expand (t : Table) (target? : String → Option Table) (rows : List DecodedRecord)
    (spec : KeyMap Rendering) : TableM σ (List DecodedRecord) := do
  let xs ← checked (t.expansions target? spec)
  let results ← Reading.all stores t.limits.readers (Reading.ofExpansions xs rows)
  let found (table : Nat) (record : String) : Option DecodedRecord :=
    (results.find? fun r => r.1.table.id = table && r.1.record = record).map Prod.snd
  return rows.map fun e => { e with row := xs.foldl (Expansion.apply found) e.row }

end Table
end DocTables
