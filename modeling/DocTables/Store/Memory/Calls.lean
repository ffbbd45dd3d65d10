import DocTables.Store.Memory.Listing
import DocTables.Store.Memory.Write

/-!
The calls of a store in memory. Each is noted first, then fails if it was told to. A call that
fails changes nothing but the notes.
-/
namespace DocTables.Memory

/-- Notes a call, then fails as told or acts. -/
def perform {α : Type} (call : Call) (act : Memory → Except StoreError (α × Memory)) :
    StoreM Memory α := fun m =>
  let m := { m with calls := m.calls ++ [call] }
  match m.failure? call.method with
  | some message => (.error (.injected message), m)
  | none =>
    match act m with
    | .ok (a, m) => (.ok a, m)
    | .error e => (.error e, m)

def findCollection (id : String) (m : Memory) : Except StoreError (Collection × Memory) :=
  match m.collections.get? id with
  | some c => .ok (c, m)
  | none => .error (.collectionNotFound id)

def beginRead (m : Memory) : Unit × Memory :=
  ((), { m with reading := m.reading + 1, mostReading := max m.mostReading (m.reading + 1) })

def endRead (id : String) : StoreM Memory Record := fun m =>
  let m := { m with reading := m.reading - 1 }
  ((m.record? id).elim (.error (.recordNotFound id)) .ok, m)

/-- The store in memory, as tables use it. -/
def store : Store Memory where
  readSchema id := perform (.readSchema id) (findCollection id)
  addCollection parent title properties :=
    perform (.addCollection parent title properties) fun m => .ok (addCollection properties m)
  extendSchema source properties :=
    perform (.extendSchema source properties) (extendSchema source properties)
  addRecord source properties :=
    perform (.addRecord source properties) (addRecord source properties)
  startRead id := perform (.readRecord id) fun m => .ok m.beginRead
  finishRead id := endRead id
  changeRecord id change := perform (.changeRecord id change) (changeRecord id change)
  query source q := perform (.query source q) fun m => (list source q m).map fun page => (page, m)

end DocTables.Memory
