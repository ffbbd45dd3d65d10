import DocTables.Store.Call
import DocTables.Store.Stamp

/-!
A document store kept in memory: what it holds, and how its collections and records are found. It
numbers its writes, notes every call, and can be told to fail.
-/
namespace DocTables

structure SourcedRecord where
  source : String
  record : Record

structure Memory where
  collections : KeyMap Collection
  sources : KeyMap String
  records : List SourcedRecord
  calls : List Call
  failures : List (Method × String)
  writes : Nat
  created : Nat
  reading : Nat
  mostReading : Nat
  hidesMore : Bool

namespace Memory

def empty : Memory := ⟨.empty, .empty, [], [], [], 0, 0, 0, 0, false⟩

instance : Inhabited Memory := ⟨empty⟩

/-- Puts a collection in place without noting a call. -/
def seed (m : Memory) (c : Collection) : Memory :=
  { m with
    sources := m.sources.insert c.source c.id
    collections := m.collections.insert c.id
      { c with properties := c.properties.map Stamp.tagged } }

def record? (m : Memory) (id : String) : Option Record :=
  (m.records.find? fun s => s.record.id = id).map SourcedRecord.record

/-- How often a method has been called. -/
def timesCalled (m : Memory) (method : Method) : Nat :=
  m.calls.countP fun c => c.method = method

/-- From now on the method fails. -/
def failWith (m : Memory) (method : Method) (message : String) : Memory :=
  { m with failures := (method, message) :: m.failures }

def clearFailures (m : Memory) : Memory := { m with failures := [] }

def clearCalls (m : Memory) : Memory := { m with calls := [] }

/-- From now on pages say whether there are more records, or do not. -/
def setHidesMore (m : Memory) (flag : Bool) : Memory := { m with hidesMore := flag }

def failure? (m : Memory) (method : Method) : Option String := m.failures.lookup method

def collectionOf (m : Memory) (source : String) : Except StoreError Collection :=
  match m.sources.get? source with
  | none => .error (.sourceNotFound source)
  | some id =>
    match m.collections.get? id with
    | none => .error (.collectionNotFound id)
    | some c => .ok c

/-- The records of a data source outside the archive, oldest first. -/
def live (m : Memory) (source : String) : List Record :=
  (m.records.filter fun s => s.source = source && !s.record.archived).map SourcedRecord.record

end Memory
end DocTables
