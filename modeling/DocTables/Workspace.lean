import DocTables.Relation.Declaration
import DocTables.Relation.Targets
import DocTables.Store.Memory.Calls
import DocTables.Table.Write

/-!
Workspaces: named stores in memory, named contexts over them, and named handles of tables. A table
lives as long as it has a handle; its relations go with its last one.
-/
namespace DocTables

/-- What the tables defined in one place share: a store, bounds, and the number of the relations
between them. -/
structure Context where
  store : String
  limits : Limits
  relations : Nat

structure Workspace where
  stores : KeyMap Memory
  contexts : KeyMap Context
  relations : List Relations
  handles : KeyMap Table
  tables : Nat

namespace Workspace

def empty : Workspace := ⟨.empty, .empty, [], .empty, 0⟩

instance : Inhabited Workspace := ⟨empty⟩

/-- The store of a name, empty before its first use. -/
def memory (w : Workspace) (name : String) : Memory := (w.stores.get? name).getD .empty

def setMemory (w : Workspace) (name : String) (m : Memory) : Workspace :=
  { w with stores := w.stores.insert name m }

/-- Acts on one of the stores. -/
def onStore {α : Type} (name : String) (act : StoreM Memory α) : StoreM Workspace α := fun w =>
  match act (w.memory name) with
  | (r, m) => (r, w.setMemory name m)

/-- The stores of a workspace, as tables use them. -/
def storeAt (name : String) : Store Workspace := Memory.store.within (onStore name)

/-- The relations of a number. -/
def related (w : Workspace) (n : Nat) : Relations := (w.relations[n]?).getD .empty

def modifyRelated (n : Nat) (f : Relations → Relations) (w : Workspace) : Workspace :=
  { w with relations := w.relations.modify n f }

def hasHandle (w : Workspace) (t : Table) : Bool := w.handles.values.any fun h => h.id = t.id

/-- The first name of a handle of the table. -/
def handleOf? (w : Workspace) (t : Table) : Option String := w.handles.findKey? fun h => h.id = t.id

/-- Opens a context with relations of its own, in place of any of that name. -/
def openContext (name store : String) (limits : Limits) (w : Workspace) : Workspace :=
  { w with
    contexts := w.contexts.insert name ⟨store, limits, w.relations.length⟩
    relations := w.relations ++ [.empty] }

/-- The context of a name; an unknown one is opened over `store` with the usual bounds. -/
def context (name store : String) : StateM Workspace Context := fun w =>
  match w.contexts.get? name with
  | some c => (c, w)
  | none => (⟨store, {}, w.relations.length⟩, w.openContext name store {})

/-- Forgets the relations of a table that has lost its last handle. -/
def release (t : Table) (w : Workspace) : Workspace :=
  if w.hasHandle t then w else w.modifyRelated t.relations (·.eraseSource t.id)

/-- Gives a table a handle; the table that had this name loses it. -/
def setHandle (name : String) (t : Table) (w : Workspace) : Workspace :=
  let w' := { w with handles := w.handles.insert name t }
  match w.handles.get? name with
  | some old => w'.release old
  | none => w'

def dropHandle (name : String) (w : Workspace) : Workspace :=
  match w.handles.get? name with
  | some t => { w with handles := w.handles.erase name }.release t
  | none => w

/-- Numbers a new table of a context and gives it a handle. -/
def addTable (handle title : String) (c : Context) (columns : Columns) (ref : CollectionRef) :
    TableM Workspace Table := fun w =>
  let t : Table := ⟨w.tables + 1, title, columns, ref, c.store, c.relations, c.limits⟩
  (.ok t, { w with tables := w.tables + 1 }.setHandle handle t)

/-- Defines a table with given columns. -/
def define (handle title : String) (c : Context) (columns : Columns) (binding : Binding) :
    TableM Workspace Table := do
  let ref ← Table.bind storeAt c.store title columns binding
  addTable handle title c columns ref

/-- Defines a table with columns read from the schema of a collection. -/
def introspect (handle title : String) (c : Context) (collection : String) :
    TableM Workspace Table := do
  let found ← asking (.introspect collection) ((storeAt c.store).readSchema collection)
  addTable handle title c (.ofSchema found.properties) found.ref

def setTarget (source : Table) (key : String) (target : Table) (w : Workspace) : Workspace :=
  w.modifyRelated source.relations (·.insert w.hasHandle source.id key target)

/-- Registers the target of a relation column without touching any schema. -/
def relate (source : Table) (key : String) (target : Table) : TableM Workspace Unit := do
  let _ ← checked (source.relationColumn key)
  modify (setTarget source key target)

/-- Registers a target in the relations of a number, which need not be those of the source. -/
def addTarget (n : Nat) (source : Table) (key : String) (target : Table) (w : Workspace) :
    Workspace :=
  w.modifyRelated n (·.insert w.hasHandle source.id key target)

/-- Registers the target of a relation column in the relations of a number. -/
def register (n : Nat) (source : Table) (key : String) (target : Table) :
    TableM Workspace Unit := do
  let _ ← checked (source.relationColumn key)
  modify (addTarget n source key target)

/-- Checks links, registers their targets, and declares them in the schemas of their sources. -/
def link (links : List Link) : TableM Workspace Unit := do
  let updates ← checked (Link.updates links)
  modify fun w => links.foldl (fun w l => w.setTarget l.source l.key l.target) w
  Link.send storeAt updates

/-- The registered target of a relation column, while it has a handle. -/
def target? (w : Workspace) (t : Table) (key : String) : Option Table :=
  (w.related t.relations).target? w.hasHandle t.id key

def expand (t : Table) (rows : List DecodedRecord) (spec : KeyMap Rendering) :
    TableM Workspace (List DecodedRecord) := do
  t.expand storeAt ((← get).target? t) rows spec

def select (t : Table) (s : Selection) : TableM Workspace RowPage := do
  t.select storeAt ((← get).target? t) s

/-- Every row from the start cursor on. Each page but the last has a record of its own, so there
are no more pages than records and one. -/
def selectRest (t : Table) (s : Selection) : TableM Workspace (List DecodedRecord) := do
  let w ← get
  let (rows, _) ← t.selectPages storeAt (w.target? t) ((w.memory t.store).records.length + 1) s
  return rows

end Workspace
end DocTables
