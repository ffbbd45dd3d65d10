import DocTables.Proofs.Pool

/-!
What the calls to stores keep is kept by the operations on tables: they do nothing else with a
workspace. Operations that only read need it of reads alone.
-/
namespace DocTables.Workspace
open Effect
variable {I : Workspace → Prop} {t : Table}

/-- Reads of any store keep `I`. -/
structure KeptByReads (I : Workspace → Prop) : Prop where
  query : ∀ name source q, Keeps I ((storeAt name).query source q)
  startRead : ∀ name id, Keeps I ((storeAt name).startRead id)
  finishRead : ∀ name id, Keeps I ((storeAt name).finishRead id)

/-- All calls that make no collection keep `I`. -/
structure KeptByWrites (I : Workspace → Prop) : Prop extends KeptByReads I where
  readSchema : ∀ name id, Keeps I ((storeAt name).readSchema id)
  extendSchema : ∀ name source ps, Keeps I ((storeAt name).extendSchema source ps)
  addRecord : ∀ name source ps, Keeps I ((storeAt name).addRecord source ps)
  changeRecord : ∀ name id change, Keeps I ((storeAt name).changeRecord id change)

/-- All calls to any store keep `I`. -/
structure KeptByCalls (I : Workspace → Prop) : Prop extends KeptByWrites I where
  addCollection : ∀ name parent title ps, Keeps I ((storeAt name).addCollection parent title ps)

/-- What does not depend on what is stored is kept by all calls. -/
theorem keptByCalls_of_setMemory (h : ∀ w name m, I w → I (w.setMemory name m)) :
    KeptByCalls I := by
  have hact : ∀ {α : Type} (name : String) (act : StoreM Memory α), Keeps I (onStore name act) := by
    intro α name act w hw
    rw [onStore_apply]
    exact h w name _ hw
  refine ⟨⟨⟨?_, ?_, ?_⟩, ?_, ?_, ?_, ?_⟩, ?_⟩ <;> intros <;> exact hact _ _

/-- A table is made in the workspace in which its collection has been found. -/
theorem holds_addTable {α : Type} {J : Workspace → Prop} {w : Workspace} {x : TableM Workspace α}
    {handle title : String} {c : Context} {columns : α → Columns} {ref : α → CollectionRef}
    (hx : J (x w).2) (hfailed : ∀ w', J w' → I w')
    (hmade : ∀ w' columns ref, J w' → I (addTable handle title c columns ref w').2) :
    I ((x >>= fun a => addTable handle title c (columns a) (ref a)) w).2 := by
  refine holds_bind (hfailed _ hx) fun a w' hrun => ?_
  rw [hrun] at hx
  exact hmade w' (columns a) (ref a) hx

theorem keeps_decode (t : Table) (r : Record) : Keeps I (t.decode r) := .checked _

namespace KeptByReads

theorem row (h : KeptByReads I) (t : Table) (id : String) : Keeps I (t.row storeAt id) := by
  unfold Table.row Store.readRecord
  apply Keeps.bind
  · apply Keeps.asking
    exact (h.startRead t.store id).bind fun _ => h.finishRead t.store id
  · intro r
    exact keeps_decode t r

theorem list (h : KeptByReads I) (t : Table) (q : Query) : Keeps I (t.list storeAt q) := by
  unfold Table.list
  apply Keeps.bind
  · exact .asking (h.query _ _ q)
  · intro page
    have hrows : Keeps I (page.records.mapM t.decode) := Keeps.mapM fun r _ => keeps_decode t r
    exact hrows.bind fun rows => .pure _

theorem start (h : KeptByReads I) (r : Reading) : Keeps I (r.start storeAt) :=
  .asking (h.startRead _ _)

theorem finish (h : KeptByReads I) (r : Reading) : Keeps I (r.finish storeAt) :=
  (Keeps.asking (h.finishRead _ _)).bind fun record => keeps_decode _ record

theorem expand (h : KeptByReads I) (t : Table) (target? : String → Option Table)
    (rows : List DecodedRecord) (spec : KeyMap Rendering) :
    Keeps I (t.expand storeAt target? rows spec) := by
  unfold Table.expand Reading.all
  apply Keeps.bind_checked
  intro xs _
  apply Keeps.bind
  · exact Pool.keeps_complete h.start h.finish _ _ _
  · intro results
    exact .pure _

theorem select (h : KeptByReads I) (t : Table) (target? : String → Option Table) (s : Selection) :
    Keeps I (t.select storeAt target? s) := by
  unfold Table.select
  apply Keeps.bind_checked
  intro q _
  apply (h.list t q).bind
  intro page
  split
  · exact .pure _
  · exact (h.expand t target? page.rows s.expand).bind fun rows => .pure _

theorem selectPages (h : KeptByReads I) (t : Table) (target? : String → Option Table) (n : Nat)
    (s : Selection) : Keeps I (t.selectPages storeAt target? n s) := by
  induction n generalizing s with
  | zero => exact .pure _
  | succ n ih =>
    unfold Table.selectPages
    apply (h.select t target? s).bind
    intro page
    split
    next cursor _ =>
      split
      next => exact (ih { s with cursor := some cursor }).bind fun rest => .pure _
      next => exact .pure _
    next => exact .pure _

theorem find (h : KeptByReads I) (t : Table) (q : Query) : Keeps I (t.find storeAt q) :=
  (Keeps.asking (h.query _ _ q)).bind fun _ => .pure _

theorem resolve (h : KeptByReads I) (t : Table) (targets : Targets) (length : Nat) :
    Keeps I (t.resolve storeAt targets length) := by
  unfold Table.resolve
  split
  · exact .pure _
  · exact Keeps.bind_checked fun q _ => h.find t q

end KeptByReads

namespace KeptByWrites

theorem bind_existing (h : KeptByWrites I) (store title : String) (columns : Columns)
    (collection : String) :
    Keeps I (Table.bind storeAt store title columns (.existing collection)) :=
  (Keeps.asking (h.readSchema _ _)).bind fun found =>
    (Keeps.checked _).bind fun _ => .pure found.ref

theorem add (h : KeptByWrites I) (t : Table) (properties : Properties) :
    Keeps I (t.add storeAt properties) :=
  (Keeps.asking (h.addRecord _ _ _)).bind fun r => keeps_decode t r

theorem insert (h : KeptByWrites I) (t : Table) (row : Row) : Keeps I (t.insert storeAt row) :=
  Keeps.bind_checked fun properties _ => h.add t properties

theorem insertAll (h : KeptByWrites I) (t : Table) (rows : List Row) :
    Keeps I (t.insertAll storeAt rows) :=
  Keeps.bind_checked fun _ _ => Keeps.mapM fun properties _ => h.add t properties

theorem change (h : KeptByWrites I) (t : Table) (properties : Properties) (id : String) :
    Keeps I (t.change storeAt properties id) :=
  (Keeps.asking (h.changeRecord _ _ _)).bind fun r => keeps_decode t r

theorem update (h : KeptByWrites I) (t : Table) (row : Row) (p : UpdatePlan) :
    Keeps I (t.update storeAt row p) := by
  unfold Table.update
  apply Keeps.bind_checked
  intro properties _
  apply (h.resolve t p.targets (t.updateLength p)).bind
  intro ids
  cases ids with
  | nil => exact fun _ hw => hw
  | cons first rest =>
    simp only
    split
    · have hall : Keeps I ((first :: rest).mapM (t.change storeAt properties)) :=
        Keeps.mapM fun id _ => h.change t properties id
      exact hall.bind fun rows => .pure _
    · exact (h.change t properties first).bind fun row => .pure _

theorem setFlag (h : KeptByWrites I) (t : Table) (flag : Bool) (id : String) :
    Keeps I (t.setFlag storeAt flag id) :=
  (Keeps.asking (h.changeRecord _ _ _)).bind fun _ => .pure _

theorem moveAll (h : KeptByWrites I) (t : Table) (flag : Bool) (targets : Targets) :
    Keeps I (t.moveAll storeAt flag targets) := by
  apply (h.resolve t targets _).bind
  intro ids
  have hflags : Keeps I (ids.forM (t.setFlag storeAt flag)) :=
    Keeps.forM fun id _ => h.setFlag t flag id
  exact hflags.bind fun _ => .pure _

theorem send (h : KeptByWrites I) (updates : List (Table × Properties)) :
    Keeps I (Link.send storeAt updates) :=
  Keeps.forM fun _ _ => .asking (h.extendSchema _ _ _)

end KeptByWrites

theorem KeptByCalls.bind (h : KeptByCalls I) (store title : String) (columns : Columns)
    (binding : Binding) : Keeps I (Table.bind storeAt store title columns binding) := by
  cases binding with
  | under parent => exact .asking (h.addCollection _ _ _ _)
  | existing collection => exact h.bind_existing store title columns collection
end DocTables.Workspace
