import DocTables.Proofs.Workspace.Kept
import DocTables.Proofs.Workspace.Sound

/-!
Operations on tables keep a workspace sound: what they write has the types of the columns, and so of
the data source.
-/
namespace DocTables.Workspace
open Outcome Effect
variable {watch : Table → Prop} {w₀ w : Workspace} {t : Table}

/-- A sound workspace after another, with the same handles. -/
structure Follows (watch : Table → Prop) (w₀ w : Workspace) : Prop where
  sound : w.Sound watch
  handles : w.handles = w₀.handles

theorem Sound.follows (h : w.Sound watch) : Follows watch w w := ⟨h, rfl⟩

namespace Follows

theorem inUse (h : Follows watch w₀ w) (ht : InUse watch w₀ t) : InUse watch w t := by
  refine ht.imp id fun ⟨handle, hhandle⟩ => ⟨handle, ?_⟩
  rw [h.handles]
  exact hhandle

theorem onStore {α : Type} (h : Follows watch w₀ w) {name : String} {act : StoreM Memory α}
    (hact : Memory.Continues (Watched watch name) (w.memory name) (act (w.memory name)).2) :
    Follows watch w₀ (onStore name act w).2 := ⟨h.sound.onStore hact, h.handles⟩

end Follows

theorem keptByReads_follows : KeptByReads (Follows watch w₀) where
  query name source q := fun _ h => h.onStore ((h.sound.memory name).query_store source q)
  startRead name id := fun _ h => h.onStore ((h.sound.memory name).startRead_store id)
  finishRead name id := fun _ h => h.onStore ((h.sound.memory name).finishRead_store id)

section Adding
variable {properties : Properties}

theorem keeps_add (ht : InUse watch w₀ t) (hp : t.columns.Lowered properties) :
    Keeps (Follows watch w₀) (t.add storeAt properties) := by
  apply Keeps.bind
  · apply Keeps.asking
    intro w h
    apply h.onStore
    apply (h.sound.memory t.store).addRecord_store
    intro hw
    have hfits := h.sound.fits t (h.inUse ht) hw
    exact hfits.accepts hp
  · intro r
    exact keeps_decode t r

theorem keeps_insert (ht : InUse watch w₀ t) (row : Row) :
    Keeps (Follows watch w₀) (t.insert storeAt row) :=
  Keeps.bind_checked fun _ hp => keeps_add ht (Columns.lowered_insertProperties hp)

theorem keeps_insertAll (ht : InUse watch w₀ t) (rows : List Row) :
    Keeps (Follows watch w₀) (t.insertAll storeAt rows) := by
  apply Keeps.bind_checked
  intro batch hbatch
  apply Keeps.mapM
  intro properties hmem
  obtain ⟨row, -, hp⟩ := (exists_mem_of_forall₂ (mapM_eq_ok.mp hbatch)).2 properties hmem
  exact keeps_add ht (Columns.lowered_insertProperties hp)

end Adding

section Changing
variable {properties : Properties} {ids : List String}

/-- Ids of records of the data source of a table, where they are ids of records. -/
def OwnsAll (t : Table) (ids : List String) (w : Workspace) : Prop :=
  ∀ id ∈ ids, (w.memory t.store).Owns t.collection.source id

theorem keeps_change (ht : InUse watch w₀ t) (hp : t.columns.Lowered properties) {id : String}
    (hid : id ∈ ids) : Keeps (fun w => Follows watch w₀ w ∧ OwnsAll t ids w)
      (t.change storeAt properties id) := by
  refine Keeps.bind (.asking ?_) fun r => keeps_decode t r
  rintro w ⟨h, howns⟩
  constructor
  · apply h.onStore
    apply (h.sound.memory t.store).changeRecord_store
    intro ps hps s hs hsid hw
    cases hps
    -- The id is that of a record of the table, so its columns decide what may be written.
    have hsource := howns id hid s hs hsid
    rw [hsource] at hw ⊢
    have hfits := h.sound.fits t (h.inUse ht) hw
    exact hfits.accepts hp
  · intro other hother
    have hrun : ((storeAt t.store).changeRecord id (.properties properties) w).2.memory t.store =
        (Memory.store.changeRecord id (.properties properties) (w.memory t.store)).2 :=
      memory_setMemory _ _ _
    rw [hrun]
    exact (howns other hother).changeRecord_store id _

theorem keeps_setFlag (t : Table) (flag : Bool) (id : String) :
    Keeps (Follows watch w₀) (t.setFlag storeAt flag id) := by
  refine Keeps.bind (.asking ?_) fun _ => .pure _
  intro w h
  apply h.onStore
  apply (h.sound.memory t.store).changeRecord_store
  intro ps hps
  cases hps

theorem keeps_moveAll (t : Table) (flag : Bool) (targets : Targets) :
    Keeps (Follows watch w₀) (t.moveAll storeAt flag targets) := by
  apply (keptByReads_follows.resolve t targets _).bind
  intro ids
  have hflags : Keeps (Follows watch w₀) (ids.forM (t.setFlag storeAt flag)) :=
    Keeps.forM fun id _ => keeps_setFlag t flag id
  exact hflags.bind fun _ => .pure _

/-- Ids that a query finds are those of records of the data source. -/
theorem ownsAll_find (h : w.Sound watch) {q : Query} {w' : Workspace}
    (hfind : t.find storeAt q w = (.ok ids, w')) : OwnsAll t ids w' := by
  obtain ⟨page, w₁, hpage, heq⟩ := run_bind_eq_ok hfind
  obtain ⟨hids, rfl⟩ := Prod.mk.inj heq
  obtain rfl := Except.ok.inj hids
  obtain ⟨m, hm, rfl⟩ := onStore_eq (asking_eq_ok hpage)
  intro id hid
  obtain ⟨r, hr, rfl⟩ := List.mem_map.mp hid
  rw [memory_setMemory]
  exact (h.memory t.store).coherent.owns_of_query hm hr

theorem ownsAll_resolve (h : w.Sound watch) {targets : Targets} {length : Nat} {w' : Workspace}
    (howns : ∀ ids ∈ targets.records, OwnsAll t ids w)
    (hresolve : t.resolve storeAt targets length w = (.ok ids, w')) : OwnsAll t ids w' := by
  unfold Table.resolve at hresolve
  cases hrecords : targets.records with
  | some ids' =>
    rw [hrecords] at hresolve
    obtain ⟨hok, rfl⟩ := Prod.mk.inj hresolve
    obtain rfl := Except.ok.inj hok
    exact howns ids' hrecords
  | none =>
    rw [hrecords] at hresolve
    obtain ⟨q, w₁, hq, hfind⟩ := run_bind_eq_ok hresolve
    obtain ⟨-, rfl⟩ := Prod.mk.inj hq
    exact ownsAll_find h hfind

theorem Sound.update (h : w.Sound watch) (ht : InUse watch w t) (row : Row) {p : UpdatePlan}
    (howns : ∀ ids ∈ p.targets.records, OwnsAll t ids w) :
    (t.update storeAt row p w).2.Sound watch := by
  unfold Table.update
  refine holds_bind h fun properties w₁ hproperties => ?_
  obtain ⟨hp, rfl⟩ := Prod.mk.inj hproperties
  have hlowered := Columns.lowered_updateProperties hp
  have hresolved := keptByReads_follows.resolve t p.targets (t.updateLength p) w h.follows
  refine holds_bind hresolved.sound fun ids w' hids => ?_
  rw [hids] at hresolved
  have howned := ownsAll_resolve h howns hids
  cases ids with
  | nil => exact hresolved.sound
  | cons first rest =>
    simp only
    split
    next =>
      have hkeeps := Keeps.mapM fun id (hid : id ∈ first :: rest) => keeps_change ht hlowered hid
      have hall := hkeeps.bind fun rows => .pure (Updated.all rows)
      exact (hall w' ⟨hresolved, howned⟩).1.sound
    next =>
      have hfirst : first ∈ first :: rest := List.mem_cons_self
      have hone := (keeps_change ht hlowered hfirst).bind fun row => .pure (Updated.one row)
      exact (hone w' ⟨hresolved, howned⟩).1.sound

end Changing

end DocTables.Workspace
