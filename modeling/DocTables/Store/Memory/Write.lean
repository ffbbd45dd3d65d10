import DocTables.Store.Memory

/-! Writes to a store in memory. A write that fails changes nothing. -/
namespace DocTables.Memory

/-- Collections and their data sources are numbered as they are made. -/
def addCollection (properties : Properties) (m : Memory) : CollectionRef × Memory :=
  let n := toString (m.created + 1)
  let ref : CollectionRef := ⟨"new-col-" ++ n, "new-ds-" ++ n⟩
  (ref, { m.seed ⟨ref.collection, ref.source, properties⟩ with created := m.created + 1 })

/-- Adds properties to a schema, in place of those of the same names. -/
def extendSchema (source : String) (properties : Properties) (m : Memory) :
    Except StoreError (Unit × Memory) := do
  let c ← m.collectionOf source
  let extended := c.properties.union (properties.map Stamp.tagged)
  return ((), { m with collections := m.collections.insert c.id { c with properties := extended } })

def newRecord (m : Memory) (c : Collection) (source : String) (properties : Properties) : Record :=
  let now := Stamp.time (m.writes + 1)
  let number := m.records.countP (fun s => s.source = source) + 1
  { id := "rec-" ++ toString (m.records.length + 1)
    archived := false
    created := some now
    edited := some now
    url := none
    properties := (properties.map Stamp.tagged).union (Stamp.ofNew c.properties now number) }

def addRecord (source : String) (properties : Properties) (m : Memory) :
    Except StoreError (Record × Memory) := do
  let c ← m.collectionOf source
  let record := m.newRecord c source properties
  return (record, { m with writes := m.writes + 1, records := m.records ++ [⟨source, record⟩] })

/-- A record after a change that is write number `n` of its store. -/
def changed (schema : Properties) (n : Nat) (change : Change) (r : Record) : Record :=
  let r :=
    match change with
    | .properties changes => { r with properties := r.properties.union (changes.map Stamp.tagged) }
    | .archived flag => { r with archived := flag }
  { r with
    properties := r.properties.union (Stamp.ofEdit schema (Stamp.time n))
    edited := some (Stamp.time n) }

/-- Replaces the record with the id of `r`. -/
def setRecord (r : Record) (records : List SourcedRecord) : List SourcedRecord :=
  records.map fun s => if s.record.id = r.id then { s with record := r } else s

def changeRecord (id : String) (change : Change) (m : Memory) :
    Except StoreError (Record × Memory) :=
  match m.records.find? fun s => s.record.id = id with
  | none => .error (.recordNotFound id)
  | some s => do
    let c ← m.collectionOf s.source
    let record := changed c.properties (m.writes + 1) change s.record
    return (record, { m with writes := m.writes + 1, records := setRecord record m.records })

end DocTables.Memory
