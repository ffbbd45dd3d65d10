import DocTables.Proofs.Column.Declared
import DocTables.Proofs.Pool
import DocTables.Proofs.Store.Kept

/-!
What holds in a workspace between operations. Some of its tables are watched: the records of their
data sources hold properties of declared types, and every table over such a data source has the
declared types.
-/
namespace DocTables
open Effect

/-- Every column of a table has a property of its type. -/
def Table.Fits (t : Table) (m : Memory) : Prop :=
  ∀ e ∈ t.columns.entries, m.Declares t.collection.source e.2.name e.2.type

theorem Table.fits_of_declared {t : Table} {m : Memory} {c : Collection}
    (hc : m.collectionOf t.collection.source = .ok c) (h : t.columns.Declared c.properties) :
    t.Fits m := fun e he => ⟨c, hc, h e he⟩

/-- What a row is lowered to has the types of the data source. -/
theorem Table.Fits.accepts {t : Table} {m : Memory} {properties : Properties} (h : t.Fits m)
    (hp : t.columns.Lowered properties) : m.Accepts t.collection.source properties := by
  intro p hmem
  obtain ⟨e, he, hname, hwritten⟩ := hp p hmem
  exact ⟨e.2.type, hname ▸ h e he, hwritten⟩

namespace Workspace
variable {watch watch' : Table → Prop} {w w' : Workspace} {t : Table}

/-- The data sources that watched tables have in a store. -/
def Watched (watch : Table → Prop) (store source : String) : Prop :=
  ∃ t, watch t ∧ t.store = store ∧ t.collection.source = source

/-- The table has a handle. -/
def Has (w : Workspace) (t : Table) : Prop := ∃ handle, w.handles.get? handle = some t

/-- Watched tables, and those with a handle. -/
def InUse (watch : Table → Prop) (w : Workspace) (t : Table) : Prop := watch t ∨ w.Has t

structure Sound (watch : Table → Prop) (w : Workspace) : Prop where
  memory : ∀ name, (w.memory name).Sound (Watched watch name)
  registered : ∀ t, InUse watch w t →
    ∃ id, (w.memory t.store).sources.get? t.collection.source = some id
  fits : ∀ t, InUse watch w t → Watched watch t.store t.collection.source →
    t.Fits (w.memory t.store)
  numbered : ∀ t, InUse watch w t → t.id ≤ w.tables
  same : ∀ t u, InUse watch w t → InUse watch w u → t.id = u.id → t = u

theorem InUse.of_has (h : ∀ t, w'.Has t → w.Has t) (ht : InUse watch w' t) : InUse watch w t :=
  ht.imp id (h t)

namespace Sound

/-- Contexts and relations do not matter, and tables may lose their handles. -/
theorem congr (h : w.Sound watch) (hstores : w'.stores = w.stores) (htables : w'.tables = w.tables)
    (hhas : ∀ t, w'.Has t → w.Has t) : w'.Sound watch := by
  have hmemory : ∀ name, w'.memory name = w.memory name := fun name => by
    unfold Workspace.memory
    rw [hstores]
  refine ⟨?_, ?_, ?_, ?_, ?_⟩
  · intro name
    rw [hmemory]
    exact h.memory name
  · intro t ht
    rw [hmemory]
    exact h.registered t (ht.of_has hhas)
  · intro t ht hw
    rw [hmemory]
    exact h.fits t (ht.of_has hhas) hw
  · intro t ht
    rw [htables]
    exact h.numbered t (ht.of_has hhas)
  · intro t u ht hu
    exact h.same t u (ht.of_has hhas) (hu.of_has hhas)

/-- One memory goes on soundly. -/
theorem setMemory (h : w.Sound watch) {name : String} {m : Memory}
    (hm : Memory.Continues (Watched watch name) (w.memory name) m) :
    (w.setMemory name m).Sound watch := by
  refine ⟨?_, ?_, ?_, h.numbered, h.same⟩
  · intro other
    by_cases hother : other = name
    · rw [hother, memory_setMemory]
      exact hm.sound
    · rw [memory_setMemory_of_ne hother]
      exact h.memory other
  · intro t ht
    obtain ⟨id, hid⟩ := h.registered t ht
    by_cases hother : t.store = name
    · refine ⟨id, ?_⟩
      rw [hother] at hid ⊢
      rw [memory_setMemory]
      exact hm.sources hid
    · rw [memory_setMemory_of_ne hother]
      exact ⟨id, hid⟩
  · intro t ht hw e he
    have hdeclares := h.fits t ht hw e he
    by_cases hother : t.store = name
    · rw [hother] at hdeclares hw ⊢
      rw [memory_setMemory]
      exact hm.declares hw hdeclares
    · rw [memory_setMemory_of_ne hother]
      exact hdeclares

/-- A call to one of the stores, done or refused. -/
theorem onStore {α : Type} (h : w.Sound watch) {name : String} {act : StoreM Memory α}
    (hact : Memory.Continues (Watched watch name) (w.memory name) (act (w.memory name)).2) :
    (onStore name act w).2.Sound watch := by
  rw [onStore_apply]
  exact h.setMemory hact

end Sound

section Handles

theorem handles_release (t : Table) (w : Workspace) :
    (w.release t).handles = w.handles ∧ (w.release t).stores = w.stores ∧
      (w.release t).tables = w.tables := by
  unfold release
  split <;> exact ⟨rfl, rfl, rfl⟩

theorem setHandle_fields (handle : String) (t : Table) (w : Workspace) :
    (w.setHandle handle t).handles = w.handles.insert handle t ∧
      (w.setHandle handle t).stores = w.stores ∧ (w.setHandle handle t).tables = w.tables := by
  unfold setHandle
  cases w.handles.get? handle with
  | none => exact ⟨rfl, rfl, rfl⟩
  | some old => exact handles_release old _

theorem has_setHandle {handle : String} {t u : Table} (h : (w.setHandle handle t).Has u) :
    u = t ∨ w.Has u := by
  obtain ⟨other, hother⟩ := h
  rw [(setHandle_fields handle t w).1, KeyMap.get?_insert] at hother
  split at hother
  next => exact .inl (Option.some.inj hother).symm
  next => exact .inr ⟨other, hother⟩

theorem dropHandle_fields (handle : String) (w : Workspace) :
    (w.dropHandle handle).stores = w.stores ∧ (w.dropHandle handle).tables = w.tables := by
  unfold dropHandle
  split
  · exact (handles_release _ _).2
  · exact ⟨rfl, rfl⟩

theorem has_dropHandle {handle : String} {u : Table} (h : (w.dropHandle handle).Has u) :
    w.Has u := by
  unfold dropHandle at h
  split at h
  next t _ =>
    obtain ⟨other, hother⟩ := h
    rw [(handles_release t _).1, KeyMap.get?_erase] at hother
    split at hother
    · simp at hother
    · exact ⟨other, hother⟩
  next => exact h

/-- The workspace after a new table has got a handle. -/
def withTable (w : Workspace) (handle : String) (t : Table) : Workspace :=
  { w with tables := w.tables + 1 }.setHandle handle t

theorem memory_withTable (w : Workspace) (handle : String) (t : Table) (name : String) :
    (w.withTable handle t).memory name = w.memory name := by
  unfold withTable memory
  rw [(setHandle_fields handle t _).2.1]

theorem has_withTable_cases {handle : String} {u : Table} (h : (w.withTable handle t).Has u) :
    u = t ∨ w.Has u := has_setHandle (w := { w with tables := w.tables + 1 }) h

theorem inUse_withTable {handle : String} {u : Table}
    (h : InUse watch (w.withTable handle t) u) : u = t ∨ InUse watch w u := by
  rcases h with hwatch | hhas
  · exact .inr (.inl hwatch)
  · exact (has_withTable_cases hhas).imp id .inr

theorem has_withTable (w : Workspace) (handle : String) (t : Table) :
    (w.withTable handle t).Has t := by
  refine ⟨handle, ?_⟩
  unfold withTable
  rw [(setHandle_fields handle t _).1, KeyMap.get?_insert_self]

namespace Sound

theorem setHandle (h : w.Sound watch) (handle : String) (ht : w.Has t) :
    (w.setHandle handle t).Sound watch := by
  refine h.congr (setHandle_fields handle t w).2.1 (setHandle_fields handle t w).2.2 ?_
  intro u hu
  rcases has_setHandle hu with rfl | hu
  · exact ht
  · exact hu

theorem dropHandle (h : w.Sound watch) (handle : String) : (w.dropHandle handle).Sound watch := by
  obtain ⟨hstores, htables⟩ := dropHandle_fields handle w
  exact h.congr hstores htables fun _ hu => has_dropHandle hu

/-- A new table over a data source of its store. -/
theorem withTable (h : w.Sound watch) (handle : String) (hid : t.id = w.tables + 1)
    (hregistered : ∃ id, (w.memory t.store).sources.get? t.collection.source = some id)
    (hfits : Watched watch t.store t.collection.source → t.Fits (w.memory t.store)) :
    (w.withTable handle t).Sound watch := by
  have htables : (w.withTable handle t).tables = w.tables + 1 := (setHandle_fields handle t _).2.2
  refine ⟨?_, ?_, ?_, ?_, ?_⟩
  · intro name
    rw [memory_withTable]
    exact h.memory name
  · intro u hu
    rw [memory_withTable]
    rcases inUse_withTable hu with rfl | hu
    · exact hregistered
    · exact h.registered u hu
  · intro u hu hw
    rw [memory_withTable]
    rcases inUse_withTable hu with rfl | hu
    · exact hfits hw
    · exact h.fits u hu hw
  · intro u hu
    rcases inUse_withTable hu with rfl | hu
    · omega
    · have hle := h.numbered u hu
      omega
  · -- The number of the new table is greater than all others.
    intro u v hu hv heq
    rcases inUse_withTable hu with rfl | hu' <;> rcases inUse_withTable hv with rfl | hv'
    · rfl
    · have hle := h.numbered v hv'
      omega
    · have hle := h.numbered u hu'
      omega
    · exact h.same u v hu' hv' heq

/-- A table can be watched from when it is the only one over its data source. -/
theorem watching (h : w.Sound watch) (ht : w.Has t) (hfits : t.Fits (w.memory t.store))
    (htyped : (w.memory t.store).Typed t.collection.source)
    (honly : ∀ u, InUse watch w u → u.store = t.store →
      u.collection.source = t.collection.source → u = t) :
    w.Sound fun u => watch u ∨ u = t := by
  have huse : ∀ u, InUse (fun u => watch u ∨ u = t) w u → InUse watch w u := by
    rintro u ((hwatch | rfl) | hhas)
    · exact .inl hwatch
    · exact .inr ht
    · exact .inr hhas
  have hwatched : ∀ name source, Watched (fun u => watch u ∨ u = t) name source →
      Watched watch name source ∨ t.store = name ∧ t.collection.source = source := by
    rintro name source ⟨u, hwatch | rfl, hu⟩
    · exact .inl ⟨u, hwatch, hu⟩
    · exact .inr hu
  refine ⟨?_, fun u hu => h.registered u (huse u hu), ?_, fun u hu => h.numbered u (huse u hu),
    fun u v hu hv => h.same u v (huse u hu) (huse v hv)⟩
  · intro name
    refine ⟨(h.memory name).coherent, ?_, ?_⟩
    · intro source hw
      rcases hwatched name source hw with hw | ⟨rfl, rfl⟩
      · exact (h.memory name).registered hw
      · exact h.registered t (.inr ht)
    · intro source hw
      rcases hwatched name source hw with hw | ⟨rfl, rfl⟩
      · exact (h.memory name).typed hw
      · exact htyped
  · intro u hu hw
    rcases hwatched u.store u.collection.source hw with hw | ⟨hstore, hsource⟩
    · exact h.fits u (huse u hu) hw
    · obtain rfl := honly u (huse u hu) hstore.symm hsource.symm
      exact hfits

end Sound

end Handles

end Workspace
end DocTables
