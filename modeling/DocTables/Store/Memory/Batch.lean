import DocTables.Store.Memory.Write

/-!
Many records added to a store in one go. They are numbered as if each of them were added on its own,
but the records that are there are counted only once.
-/
namespace DocTables.Memory

/-- A new record that is written as number `write`, in this place in the store, with this number in
its data source. -/
def placedRecord (schema : Properties) (write place number : Nat) (properties : Properties) :
    Record :=
  let now := Stamp.time write
  { id := "rec-" ++ toString place
    archived := false
    created := some now
    edited := some now
    url := none
    properties := (properties.map Stamp.tagged).union (Stamp.ofNew schema now number) }

def newRecords (m : Memory) (c : Collection) (source : String) (batch : List Properties) :
    List Record :=
  let place := m.records.length
  let number := m.records.countP fun s => s.source = source
  batch.mapIdx fun i => placedRecord c.properties (m.writes + i + 1) (place + i + 1) (number + i + 1)

/-- Puts records into a data source, each by a write of its own. -/
def withRecords (m : Memory) (source : String) (records : List Record) : Memory :=
  { m with
    writes := m.writes + records.length
    records := m.records ++ records.map fun r => ⟨source, r⟩ }

def addRecords (source : String) (batch : List Properties) (m : Memory) :
    Except StoreError (List Record × Memory) := do
  let c ← m.collectionOf source
  let records := m.newRecords c source batch
  return (records, m.withRecords source records)

end DocTables.Memory
