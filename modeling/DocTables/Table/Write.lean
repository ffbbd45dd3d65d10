import DocTables.Table.Selection

/-! Writing rows of a table: inserts, updates, and moves to and from the archive. -/
namespace DocTables

/-- Which rows to write to. Record ids are taken as they are; otherwise a query finds the rows. -/
structure Targets where
  records : Option (List String) := none
  criteria : Criteria := {}

/-- Which rows to update. In wide mode all of them are, otherwise the first one. -/
structure UpdatePlan where
  targets : Targets := {}
  wide : Bool := false
  length : Option Nat := none

inductive Updated where
  | one (row : DecodedRecord)
  | all (rows : List DecodedRecord)

namespace UpdatePlan

/-- More than one record id means wide mode. -/
def isWide (p : UpdatePlan) : Bool := p.wide || p.targets.records.any fun ids => 1 < ids.length

end UpdatePlan

namespace Table
variable {σ : Type} (stores : String → Store σ)

def add (t : Table) (properties : Properties) : TableM σ DecodedRecord := do
  let r ← asking (.add t.title) ((stores t.store).addRecord t.collection.source properties)
  t.decode r

def insert (t : Table) (row : Row) : TableM σ DecodedRecord := do
  let properties ← checked (t.columns.insertProperties row)
  t.add stores properties

/-- Inserts rows in order, once all of them are found valid. -/
def insertAll (t : Table) (rows : List Row) : TableM σ (List DecodedRecord) := do
  let batch ← checked (rows.mapM t.columns.insertProperties)
  batch.mapM (t.add stores)

/-- The ids of the records on the first page of a query. -/
def find (t : Table) (q : Query) : TableM σ (List String) := do
  let page ← asking (.find t.title) ((stores t.store).query t.collection.source q)
  return page.records.map Record.id

/-- The ids of targets. A query for them asks for a page of some length. -/
def resolve (t : Table) (targets : Targets) (length : Nat) : TableM σ (List String) :=
  match targets.records with
  | some ids => return ids
  | none => do
    let q ← checked (targets.criteria.query (t.limits.pageLength (some length)) none)
    t.find stores q

def change (t : Table) (properties : Properties) (record : String) : TableM σ DecodedRecord := do
  let r ← asking (.update record t.title)
    ((stores t.store).changeRecord record (.properties properties))
  t.decode r

/-- How many rows an update looks for. -/
def updateLength (t : Table) (p : UpdatePlan) : Nat :=
  p.length.getD (if p.isWide then t.limits.updateBatch else 1)

/-- Writes the values of a row to the first target, or in wide mode to every one in order. -/
def update (t : Table) (row : Row) (p : UpdatePlan) : TableM σ Updated := do
  let properties ← checked (t.columns.updateProperties row)
  let targets ← t.resolve stores p.targets (t.updateLength p)
  match targets with
  | [] => throw .noTargets
  | first :: _ =>
    if p.isWide then
      let rows ← targets.mapM (t.change stores properties)
      return .all rows
    else
      let row ← t.change stores properties first
      return .one row

def setFlag (t : Table) (flag : Bool) (record : String) : TableM σ Unit := do
  let _ ← asking (.archive flag record t.title)
    ((stores t.store).changeRecord record (.archived flag))

/-- Moves every target to or from the archive and counts them. -/
def moveAll (t : Table) (flag : Bool) (targets : Targets) : TableM σ Nat := do
  let ids ← t.resolve stores targets t.limits.archiveBatch
  ids.forM (t.setFlag stores flag)
  return ids.length

def archive (t : Table) (targets : Targets) : TableM σ Nat := t.moveAll stores true targets

def restore (t : Table) (targets : Targets) : TableM σ Nat := t.moveAll stores false targets

end Table
end DocTables
