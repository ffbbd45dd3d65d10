import DocTables.Proofs.Store.SameData
import DocTables.Proofs.Workspace.Reached

/-!
What operations do to data sources and to handles. Most leave the data sources of all stores as they
are and give no table a first handle. A table gets one when it is defined or introspected, and its
data source is a new one only when its collection is made with it.
-/
namespace DocTables
open Outcome Effect

namespace Memory
variable {α : Type} {m m' : Memory} {source : String} {properties : Properties}

theorem sources_perform {call : Call} {act : Memory → Except StoreError (α × Memory)}
    (hact : ∀ a m', act (m.noted [call]) = .ok (a, m') → m'.sources = m.sources) :
    (perform call act m).2.sources = m.sources :=
  holds_perform (P := fun m' => m'.sources = m.sources) rfl hact

theorem sources_extendSchema (m : Memory) (source : String) (properties : Properties) :
    (store.extendSchema source properties m).2.sources = m.sources := by
  refine sources_perform fun u m' hdone => ?_
  obtain ⟨c, -, heq⟩ := extendSchema_eq_ok.mp hdone
  obtain ⟨-, rfl⟩ := Prod.mk.inj heq
  rfl

theorem sources_addRecord (m : Memory) (source : String) (properties : Properties) :
    (store.addRecord source properties m).2.sources = m.sources := by
  refine sources_perform fun r m' hdone => ?_
  obtain ⟨c, -, heq⟩ := addRecord_eq_ok.mp hdone
  obtain ⟨-, rfl⟩ := Prod.mk.inj heq
  rfl

theorem sources_changeRecord (m : Memory) (id : String) (change : Change) :
    (store.changeRecord id change m).2.sources = m.sources := by
  refine sources_perform fun r m' hdone => ?_
  obtain ⟨s, c, -, -, -, heq⟩ := changeRecord_eq_ok hdone
  obtain ⟨-, rfl⟩ := Prod.mk.inj heq
  rfl

/-- A collection that is made comes with its own data source. -/
theorem sources_addCollection {parent title : String} {ref : CollectionRef}
    (href : store.addCollection parent title properties m = (.ok ref, m')) :
    m'.sources = m.sources.insert ref.source ref.collection := by
  obtain ⟨rfl, rfl⟩ := Prod.mk.inj (of_addCollection href)
  rfl

end Memory

namespace Workspace
variable {watch : Table → Prop} {w₀ w w' : Workspace} {t u : Table} {handle title : String}
  {c : Context} {columns : Columns}

/-- No data source is new, and no table has a first handle. -/
structure Within (w₀ w : Workspace) : Prop where
  sources : ∀ name, (w.memory name).sources = (w₀.memory name).sources
  handles : ∀ t, w.Has t → w₀.Has t

namespace Within

theorem refl (w : Workspace) : Within w w := ⟨fun _ => rfl, fun _ ht => ht⟩

theorem congr (h : Within w₀ w) (hstores : w'.stores = w.stores)
    (hhas : ∀ t, w'.Has t → w.Has t) : Within w₀ w' := by
  refine ⟨fun name => ?_, fun t ht => h.handles t (hhas t ht)⟩
  rw [← h.sources name]
  unfold Workspace.memory
  rw [hstores]

theorem setMemory (h : Within w₀ w) {name : String} {m : Memory}
    (hm : m.sources = (w.memory name).sources) : Within w₀ (w.setMemory name m) := by
  refine ⟨fun other => ?_, h.handles⟩
  by_cases hother : other = name
  · rw [hother, memory_setMemory, hm, h.sources]
  · rw [memory_setMemory_of_ne hother, h.sources]

theorem onStore {α : Type} (h : Within w₀ w) {name : String} {act : StoreM Memory α}
    (hact : (act (w.memory name)).2.sources = (w.memory name).sources) :
    Within w₀ (onStore name act w).2 := by
  rw [onStore_apply]
  exact h.setMemory hact

end Within

theorem keptByWrites_within (w₀ : Workspace) : KeptByWrites (Within w₀) where
  query _ source q := fun _ h => h.onStore (Memory.SameData.query _ source q).sources
  startRead _ id := fun _ h => h.onStore (Memory.SameData.startRead _ id).sources
  finishRead _ id := fun _ h => h.onStore (Memory.SameData.finishRead _ id).sources
  readSchema _ id := fun _ h => h.onStore (Memory.SameData.readSchema _ id).sources
  extendSchema _ source ps := fun _ h => h.onStore (Memory.sources_extendSchema _ source ps)
  addRecord _ source ps := fun _ h => h.onStore (Memory.sources_addRecord _ source ps)
  changeRecord _ id change := fun _ h => h.onStore (Memory.sources_changeRecord _ id change)

/-- The data source of a table is there, under the name of the table's collection. -/
def Placed (w : Workspace) (t : Table) : Prop :=
  (w.memory t.store).sources.get? t.collection.source = some t.collection.collection

theorem sources_of_collectionOf (h : w.Sound watch) {name : String} {found : Collection}
    (hfound : (w.memory name).collectionOf found.source = .ok found) :
    (w.memory name).sources.get? found.ref.source = some found.ref.collection :=
  ((h.memory name).coherent.of_collectionOf hfound).2.1

/-- One more table has a handle, over a data source that is there. -/
def Joined (w w' : Workspace) : Prop :=
  ∃ handle t w₁, Within w w₁ ∧ w₁.Placed t ∧ w' = w₁.withTable handle t

/-- A table is made after its collection has been found, or not at all. -/
theorem within_or_joined {α : Type} {x : TableM Workspace α} {columns : α → Columns}
    {ref : α → CollectionRef} (hx : Keeps (Within w) x)
    (href : ∀ a w₁, x w = (.ok a, w₁) →
      (w₁.memory c.store).sources.get? (ref a).source = some (ref a).collection) :
    Within w ((x >>= fun a => addTable handle title c (columns a) (ref a)) w).2 ∨
      Joined w ((x >>= fun a => addTable handle title c (columns a) (ref a)) w).2 := by
  have hwithin := hx w (.refl w)
  rcases hrun : x w with ⟨e | a, w₁⟩
  · rw [run_bind, hrun]
    rw [hrun] at hwithin
    exact .inl hwithin
  · rw [run_bind_ok hrun, run_addTable]
    rw [hrun] at hwithin
    have hplaced : w₁.Placed (w₁.nextTable title c (columns a) (ref a)) := href a w₁ hrun
    exact .inr ⟨handle, _, w₁, hwithin, hplaced, rfl⟩

theorem define_existing_cases (h : w.Sound watch) (handle title : String) (c : Context)
    (columns : Columns) (collection : String) :
    Within w (define handle title c columns (.existing collection) w).2 ∨
      Joined w (define handle title c columns (.existing collection) w).2 := by
  have hbind := (keptByWrites_within w).bind_existing c.store title columns collection
  refine within_or_joined hbind fun ref w₁ href => ?_
  obtain ⟨hsound, found, rfl, hfound, -⟩ := bind_existing h href
  exact sources_of_collectionOf hsound hfound

theorem introspect_cases (h : w.Sound watch) (handle title : String) (c : Context)
    (collection : String) :
    Within w (introspect handle title c collection w).2 ∨
      Joined w (introspect handle title c collection w).2 := by
  have hread : Keeps (Within w) (asking (.introspect collection)
    ((storeAt c.store).readSchema collection)) := .asking ((keptByWrites_within w).readSchema _ _)
  refine within_or_joined hread fun found w₁ hfound => ?_
  obtain ⟨hsound, hcollection⟩ := readSchema_eq_ok h (asking_eq_ok hfound)
  exact sources_of_collectionOf hsound hcollection

/-- A table that is made with its collection is over a data source that was not there. -/
theorem sources_define_under (h : w.Sound watch) {parent : String}
    (hdefine : define handle title c columns (.under parent) w = (.ok t, w')) :
    t.columns = columns ∧ w'.Has t ∧ (∀ u, w'.Has u → u = t ∨ w.Has u) ∧
      (w.memory t.store).sources.get? t.collection.source = none ∧
      ∀ name source, (w'.memory name).sources.get? source =
        if name = t.store ∧ source = t.collection.source then some t.collection.collection
        else (w.memory name).sources.get? source := by
  obtain ⟨ref, w₁, href, hadd⟩ := run_bind_eq_ok hdefine
  obtain ⟨-, hhandles, hfresh, -⟩ := bind_under h href
  rw [run_addTable] at hadd
  obtain ⟨ht, rfl⟩ := Prod.mk.inj hadd
  obtain rfl := Except.ok.inj ht
  refine ⟨rfl, has_withTable _ _ _, fun u hu => ?_, hfresh, fun name source => ?_⟩
  · refine (has_withTable_cases hu).imp id fun ⟨other, hother⟩ => ⟨other, ?_⟩
    rw [← hhandles]
    exact hother
  · obtain ⟨m, hm, rfl⟩ := onStore_eq (asking_eq_ok href)
    rw [memory_withTable]
    by_cases hname : name = c.store
    · subst hname
      rw [memory_setMemory, Memory.sources_addCollection hm, KeyMap.get?_insert]
      simp only [nextTable, true_and]
    · rw [memory_setMemory_of_ne hname, if_neg fun hboth => hname hboth.1]

/-- What an operation does to data sources and handles: nothing, or there is one more table, over a
data source that was there or over one that is made with it. -/
theorem cases_of_step (h : w.Sound watch) (hs : w.Step w') :
    Within w w' ∨ Joined w w' ∨ ∃ handle title c columns parent t,
      define handle title c columns (.under parent) w = (.ok t, w') := by
  have hrefl := Within.refl w
  have hclone : ∀ handle t, w.Has t → Within w (w.setHandle handle t) := by
    intro handle t ht
    refine hrefl.congr (setHandle_fields handle t w).2.1 fun u hu => ?_
    rcases has_setHandle hu with rfl | hu
    · exact ht
    · exact hu
  have hdrop : ∀ handle, Within w (w.dropHandle handle) := fun handle =>
    hrefl.congr (dropHandle_fields handle w).1 fun _ hu => has_dropHandle hu
  have htargets : ∀ links, (∀ l ∈ links, w.Has l.source ∧ w.Has l.target) →
      Within w (w.setTargets links) := by
    intro links _
    obtain ⟨hhandles, -, hstores⟩ := setTargets_fields links w
    exact hrefl.congr hstores fun u ⟨name, hname⟩ => ⟨name, hhandles ▸ hname⟩
  rcases (keptByWrites_within w).step hrefl (fun _ _ _ => hrefl.congr rfl fun _ ht => ht)
    hclone hdrop htargets hs with
    hwithin | ⟨handle, title, c, columns, binding, rfl⟩ | ⟨handle, title, c, collection, rfl⟩
  · exact .inl hwithin
  · cases binding with
    | existing collection =>
      exact (define_existing_cases h handle title c columns collection).imp id .inl
    | under parent =>
      obtain ⟨t, w', hdefine⟩ := h.define_total handle title c columns parent
      exact .inr (.inr ⟨handle, title, c, columns, parent, t, by rw [hdefine]⟩)
  · exact (introspect_cases h handle title c collection).imp id .inl

/-- Data sources stay where they are. -/
def Grows (w w' : Workspace) : Prop :=
  ∀ name source id, (w.memory name).sources.get? source = some id →
    (w'.memory name).sources.get? source = some id

theorem grows_of_step (h : w.Sound watch) (hs : w.Step w') : Grows w w' := by
  intro name source id hid
  rcases cases_of_step h hs with
    hwithin | ⟨handle, t, w₁, hwithin, -, rfl⟩ | ⟨handle, title, c, columns, parent, t, hrun⟩
  · rwa [hwithin.sources]
  · rwa [memory_withTable, hwithin.sources]
  · obtain ⟨-, -, -, hfresh, hsources⟩ := sources_define_under h hrun
    have hother : ¬ (name = t.store ∧ source = t.collection.source) := by
      rintro ⟨rfl, rfl⟩
      exact nomatch hfresh.symm.trans hid
    rw [hsources, if_neg hother, hid]

theorem Sound.grows (h : w.Sound watch) (hr : Reaches w w') : Grows w w' := by
  induction hr with
  | refl => exact fun _ _ _ hid => hid
  | tail hbefore hs ih =>
    have hmore := grows_of_step (h.reaches hbefore) hs
    exact fun name source id hid => hmore name source id (ih name source id hid)

end Workspace
end DocTables
