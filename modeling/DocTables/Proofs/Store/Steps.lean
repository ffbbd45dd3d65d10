import DocTables.Proofs.Store.Events

/-!
The calls of a store one step at a time: a call is noted, may have been told to fail, looks up what
it needs and then writes. A step that fails leaves what the steps before it have done. Made in this
way the calls are those of the store, as no step fails once a write has begun.
-/
namespace DocTables.Memory
variable {α β : Type} {m : Memory}

namespace Steps

/-- Looks something up. -/
def look (f : Memory → Except StoreError α) : StoreM Memory α := fun m => (f m, m)

/-- Writes to the store. -/
def write (f : Memory → α × Memory) : StoreM Memory α := fun m => (.ok (f m).1, (f m).2)

/-- Notes a call, and fails if its method was told to. -/
def note (c : Call) : StoreM Memory Unit := do
  write fun m => ((), m.noted [c])
  look fun m => (m.failure? c.method).elim (.ok ()) fun message => .error (.injected message)

/-- Takes the number of the next write. -/
def number : StoreM Memory Nat := write fun m => (m.writes + 1, { m with writes := m.writes + 1 })

def find (id : String) : StoreM Memory SourcedRecord :=
  look fun m => (m.records.find? fun s => s.record.id = id).elim (.error (.recordNotFound id)) .ok

def readSchema (id : String) : StoreM Memory Collection := do
  note (.readSchema id)
  look fun m => (m.collections.get? id).elim (.error (.collectionNotFound id)) .ok

def addCollection (parent title : String) (properties : Properties) :
    StoreM Memory CollectionRef := do
  note (.addCollection parent title properties)
  write (Memory.addCollection properties)

def extendSchema (source : String) (properties : Properties) : StoreM Memory Unit := do
  note (.extendSchema source properties)
  let c ← look (·.collectionOf source)
  write fun m => ((), m.extended c properties)

def addRecord (source : String) (properties : Properties) : StoreM Memory Record := do
  note (.addRecord source properties)
  let c ← look (·.collectionOf source)
  let r ← look fun m => .ok (m.newRecord c source properties)
  let _ ← number
  write fun m => (r, { m with records := m.records ++ [⟨source, r⟩] })

def startRead (id : String) : StoreM Memory Unit := do
  note (.readRecord id)
  write beginRead

/-- The record is looked up again once the change has its number. -/
def changeRecord (id : String) (change : Change) : StoreM Memory Record := do
  note (.changeRecord id change)
  let s ← find id
  let c ← look (·.collectionOf s.source)
  let n ← number
  let s ← find id
  let r := changed c.properties n change s.record
  write fun m => (r, { m with records := setRecord r m.records })

def query (source : String) (q : Query) : StoreM Memory RecordPage := do
  note (.query source q)
  let records ← look (·.listing source q)
  let offset ← look fun _ => startOffset q.cursor
  look fun m => .ok (page m.hidesMore records offset (max 1 (q.limit.getD usualLimit)))

/-- The store whose calls are made step by step. -/
def store : Store Memory where
  readSchema := readSchema
  addCollection := addCollection
  extendSchema := extendSchema
  addRecord := addRecord
  startRead := startRead
  finishRead := endRead
  changeRecord := changeRecord
  query := query

theorem run_look (f : Memory → Except StoreError α) (g : α → StoreM Memory β) (m : Memory) :
    (look f >>= g) m =
      match f m with
      | .ok a => g a m
      | .error e => (.error e, m) := by
  rw [Effect.run_bind, look]
  cases f m <;> rfl

theorem run_write (f : Memory → α × Memory) (g : α → StoreM Memory β) (m : Memory) :
    (write f >>= g) m = g (f m).1 (f m).2 := by
  rw [Effect.run_bind, write]

/-- Acts, or leaves the store as it is. -/
def attempt (act : Memory → Except StoreError (α × Memory)) : StoreM Memory α := fun m =>
  match act m with
  | .ok (a, m') => (.ok a, m')
  | .error e => (.error e, m)

theorem perform_eq (call : Call) (act : Memory → Except StoreError (α × Memory)) (m : Memory) :
    perform call act m =
      (m.failure? call.method).elim (attempt act (m.noted [call])) fun message =>
        (.error (.injected message), m.noted [call]) := by
  have hfailure : (m.noted [call]).failure? call.method = m.failure? call.method := rfl
  unfold noted at hfailure
  simp only [perform, hfailure]
  cases m.failure? call.method <;> rfl

/-- After its note a call acts at once, if the rest of its steps come to that. -/
theorem note_bind (call : Call) {rest : StoreM Memory α}
    {f : Memory → Except StoreError (α × Memory)} (h : ∀ m, rest m = attempt f m) :
    (note call >>= fun _ => rest) = perform call f := by
  obtain rfl : rest = attempt f := funext h
  funext m
  have hnote : note call m = ((m.failure? call.method).elim (.ok ()) fun message =>
      .error (.injected message), m.noted [call]) := by
    rw [note, run_write]
    rfl
  rw [Effect.run_bind, hnote, perform_eq]
  cases m.failure? call.method <;> rfl

theorem readSchema_eq (id : String) : readSchema id = Memory.store.readSchema id := by
  refine note_bind (.readSchema id) fun m => ?_
  simp only [look, attempt, findCollection]
  cases m.collections.get? id <;> rfl

theorem addCollection_eq (parent title : String) (properties : Properties) :
    addCollection parent title properties = Memory.store.addCollection parent title properties :=
  note_bind (.addCollection parent title properties)
    (f := fun m => .ok (Memory.addCollection properties m)) fun _ => rfl

theorem extendSchema_eq (source : String) (properties : Properties) :
    extendSchema source properties = Memory.store.extendSchema source properties := by
  refine note_bind (.extendSchema source properties) fun m => ?_
  rw [run_look, attempt, Memory.extendSchema]
  cases m.collectionOf source <;> rfl

theorem addRecord_eq (source : String) (properties : Properties) :
    addRecord source properties = Memory.store.addRecord source properties := by
  refine note_bind (.addRecord source properties) fun m => ?_
  rw [run_look, attempt, Memory.addRecord]
  cases m.collectionOf source <;> rfl

theorem startRead_eq (id : String) : startRead id = Memory.store.startRead id :=
  note_bind (.readRecord id) (f := fun m => .ok m.beginRead) fun _ => rfl

theorem changeRecord_eq (id : String) (change : Change) :
    changeRecord id change = Memory.store.changeRecord id change := by
  refine note_bind (.changeRecord id change) fun m => ?_
  rw [find, run_look, attempt, Memory.changeRecord]
  cases hs : m.records.find? fun s => s.record.id = id with
  | none => rfl
  | some s =>
    simp only [Option.elim_some, run_look]
    cases hc : m.collectionOf s.source with
    | error e => rfl
    | ok c =>
      -- The number that has been taken is of no matter to the second search.
      simp only [number, run_write, run_look, hs]
      rfl

theorem query_eq (source : String) (q : Query) :
    query source q = Memory.store.query source q := by
  refine note_bind (.query source q)
    (f := fun m => (list source q m).map fun page => (page, m)) fun m => ?_
  rw [run_look, attempt, list]
  cases m.listing source q with
  | error e => rfl
  | ok records =>
    simp only [run_look]
    cases startOffset q.cursor <;> rfl

/-- Step by step, every call gives the same answer and leaves the same store. -/
theorem store_eq : store = Memory.store := by
  rw [store, funext readSchema_eq, funext₃ addCollection_eq, funext₂ extendSchema_eq,
    funext₂ addRecord_eq, funext startRead_eq, funext₂ changeRecord_eq, funext₂ query_eq]
  rfl

end Steps
end DocTables.Memory
