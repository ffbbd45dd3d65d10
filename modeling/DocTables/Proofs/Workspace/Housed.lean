import DocTables.Proofs.Store.Events
import DocTables.Proofs.Workspace.Identified
import DocTables.Proofs.Workspace.Sources

/-!
Workspaces whose stores may be called, told to fail and given collections at any time. Whatever
happens to a store, each of its data sources keeps a collection, so that every table has a schema.
-/
namespace DocTables
open Outcome Effect

namespace Memory
variable {m m' : Memory} {c : Collection} {source id : String}

def HasSource (m : Memory) (source : String) : Prop := ∃ id, m.sources.get? source = some id

/-- Collections are found under their ids, and they and their data sources lead to each other. -/
structure Keyed (m : Memory) : Prop where
  collection : ∀ {source id}, m.sources.get? source = some id → ∃ c, m.collections.get? id = some c
  key : ∀ {id c}, m.collections.get? id = some c → c.id = id
  source : ∀ {id c}, m.collections.get? id = some c → m.HasSource c.source

theorem Keyed.collectionOf (h : m.Keyed) (hs : m.HasSource source) :
    ∃ c, m.collectionOf source = .ok c := by
  obtain ⟨id, hid⟩ := hs
  obtain ⟨c, hc⟩ := h.collection hid
  exact ⟨c, collectionOf_eq_ok.mpr ⟨id, hid, hc⟩⟩

/-- A keyed memory after another, in which no data source is lost. -/
structure Grows (m m' : Memory) : Prop where
  keyed : m'.Keyed
  sources : ∀ source, m.HasSource source → m'.HasSource source

theorem Grows.trans {m'' : Memory} (h : m.Grows m') (h' : m'.Grows m'') : m.Grows m'' :=
  ⟨h'.keyed, fun source hsource => h'.sources source (h.sources source hsource)⟩

namespace Keyed

theorem congr (h : m.Keyed) (hc : m'.collections = m.collections)
    (hs : m'.sources = m.sources) : m.Grows m' := by
  have hsource : ∀ source, m.HasSource source → m'.HasSource source := by
    intro source hsource
    unfold HasSource
    rwa [hs]
  refine ⟨⟨fun hid => ?_, fun hid => ?_, fun hid => ?_⟩, hsource⟩
  · rw [hs] at hid
    rw [hc]
    exact h.collection hid
  · rw [hc] at hid
    exact h.key hid
  · rw [hc] at hid
    exact hsource _ (h.source hid)

theorem sameData (h : m.Keyed) (hs : SameData m m') : m.Grows m' :=
  h.congr hs.collections hs.sources

/-- A collection is put in place with a data source that is known or comes with it. -/
theorem insert (h : m.Keyed) (hc : m'.collections = m.collections.insert c.id c)
    (hs : m'.sources = m.sources.insert c.source c.id ∨
      m'.sources = m.sources ∧ m.HasSource c.source) : m.Grows m' := by
  have hsource : ∀ source, m.HasSource source ∨ source = c.source → m'.HasSource source := by
    intro source hsource
    unfold HasSource
    rcases hs with hs | ⟨hs, hknown⟩
    · rw [hs, KeyMap.get?_insert]
      split
      next => exact ⟨_, rfl⟩
      next hne => exact hsource.resolve_right hne
    · rw [hs]
      rcases hsource with hsource | rfl
      · exact hsource
      · exact hknown
  refine ⟨⟨fun {source id} hid => ?_, fun {id c'} hid => ?_, fun {id c'} hid => ?_⟩,
    fun source hold => hsource source (.inl hold)⟩
  · rw [hc, KeyMap.get?_insert]
    split
    next => exact ⟨c, rfl⟩
    next hne =>
      have hold : m.sources.get? source = some id := by
        rcases hs with hs | ⟨hs, -⟩
        · rw [hs, KeyMap.get?_insert] at hid
          split at hid
          next => exact absurd (Option.some.inj hid).symm hne
          next => exact hid
        · rwa [hs] at hid
      exact h.collection hold
  · rw [hc, KeyMap.get?_insert] at hid
    split at hid
    next heq => rw [← Option.some.inj hid, heq]
    next => exact h.key hid
  · rw [hc, KeyMap.get?_insert] at hid
    split at hid
    next =>
      obtain rfl := Option.some.inj hid
      exact hsource _ (.inr rfl)
    next => exact hsource _ (.inl (h.source hid))

theorem extended (h : m.Keyed) (hc : m.collectionOf source = .ok c) (ps : Properties) :
    m.Grows (m.extended c ps) := by
  obtain ⟨id, -, hid⟩ := collectionOf_eq_ok.mp hc
  have hknown : m.HasSource c.source := h.source hid
  exact h.insert (c := { c with properties := c.properties.union (ps.map Stamp.tagged) }) rfl
    (.inr ⟨rfl, hknown⟩)

theorem run (h : m.Keyed) (call : Call) : m.Grows (store.run call m).2 := by
  have hnoted : ∀ calls, m.Grows (m.noted calls) := fun calls => h.sameData (.noted m calls)
  rw [state_run]
  cases call with
  | readSchema id => exact h.sameData (.readSchema m id)
  | addCollection parent title ps =>
    rcases addCollection_store_cases m parent title ps with ⟨ref, hrun⟩ | ⟨e, hrun⟩
    · simp only [hrun]
      exact h.insert (c := ⟨_, _, ps.map Stamp.tagged⟩) rfl (.inl rfl)
    · simp only [hrun]
      exact hnoted _
  | extendSchema source ps =>
    rcases extendSchema_store_cases m source ps with ⟨c, hc, hrun⟩ | ⟨e, hrun⟩
    · simp only [hrun]
      exact (hnoted _).trans ((hnoted _).keyed.extended hc ps)
    · simp only [hrun]
      exact hnoted _
  | addRecord source ps =>
    rcases addRecord_store_cases m source ps with ⟨c, hc, hrun⟩ | ⟨e, hrun⟩
    · simp only [hrun]
      exact h.congr rfl rfl
    · simp only [hrun]
      exact hnoted _
  | readRecord id => exact h.sameData (.readRecord m id)
  | changeRecord id change =>
    rcases changeRecord_store_cases m id change with ⟨s, c, -, -, -, hrun⟩ | ⟨e, hrun⟩
    · simp only [hrun]
      exact h.congr rfl rfl
    · simp only [hrun]
      exact hnoted _
  | query source q => exact h.sameData (.query m source q)

theorem act (h : m.Keyed) (e : Event) : m.Grows (e.act m) := by
  cases e with
  | call c => exact h.run c
  | seed c =>
    exact h.insert (c := { c with properties := c.properties.map Stamp.tagged }) rfl (.inl rfl)
  | startRead id => exact h.sameData (.startRead m id)
  | finishRead id => exact h.sameData (.finishRead m id)
  | failWith method message => exact h.congr rfl rfl
  | clearFailures => exact h.congr rfl rfl
  | clearCalls => exact h.congr rfl rfl
  | setHidesMore flag => exact h.congr rfl rfl

end Keyed

theorem keyed_empty : Memory.empty.Keyed := ⟨nofun, nofun, nofun⟩

/-- A collection that is made or read has a data source. -/
theorem hasSource_addCollection {parent title : String} {ps : Properties} {ref : CollectionRef}
    (h : store.addCollection parent title ps m = (.ok ref, m')) : m'.HasSource ref.source := by
  refine ⟨ref.collection, ?_⟩
  rw [sources_addCollection h, KeyMap.get?_insert_self]

theorem Keyed.hasSource_readSchema (h : m.Keyed) (hread : store.readSchema id m = (.ok c, m')) :
    m'.HasSource c.source := by
  have hsame := SameData.readSchema m id
  rw [hread] at hsame
  have hdone : findCollection id (m.noted [.readSchema id]) = .ok (c, m') := of_perform _ _ hread
  unfold findCollection at hdone
  split at hdone
  next c' hget =>
    obtain ⟨rfl, -⟩ := Prod.mk.inj (Except.ok.inj hdone)
    exact (h.sameData hsame).sources _ (h.source hget)
  next => simp at hdone

end Memory

namespace Workspace
variable {I : Workspace → Prop} {w w' : Workspace} {t : Table} {name : String}

/-- What no event in a store breaks is kept by all calls. -/
theorem keptByCalls_of_events
    (h : ∀ w name (e : Memory.Event), I w → I (w.setMemory name (e.act (w.memory name)))) :
    KeptByCalls I := by
  have hact : ∀ {α : Type} (name : String) (act : StoreM Memory α) (e : Memory.Event),
      (∀ m, (act m).2 = e.act m) → Keeps I (onStore name act) := by
    intro α name act e he w hw
    rw [onStore_apply, he]
    exact h w name e hw
  have hcall : ∀ {α : Type} (name : String) (act : StoreM Memory α) (c : Call),
      (∀ m, (Memory.store.run c m).2 = (act m).2) → Keeps I (onStore name act) :=
    fun name act c hc => hact name act (.call c) fun m => (hc m).symm
  refine ⟨⟨⟨fun name source q => ?_, fun name id => ?_, fun name id => ?_⟩, fun name id => ?_,
    fun name source ps => ?_, fun name source ps => ?_, fun name id change => ?_⟩,
    fun name parent title ps => ?_⟩
  · exact hcall name _ (.query source q) (Memory.state_run · _)
  · exact hact name _ (.startRead id) fun _ => rfl
  · exact hact name _ (.finishRead id) fun _ => rfl
  · exact hcall name _ (.readSchema id) (Memory.state_run · _)
  · exact hcall name _ (.extendSchema source ps) (Memory.state_run · _)
  · exact hcall name _ (.addRecord source ps) (Memory.state_run · _)
  · exact hcall name _ (.changeRecord id change) (Memory.state_run · _)
  · exact hcall name _ (.addCollection parent title ps) (Memory.state_run · _)

/-- Every table with a handle has its data source in its store. -/
structure Housed (w : Workspace) : Prop where
  keyed : ∀ name, (w.memory name).Keyed
  sources : ∀ t, w.Has t → (w.memory t.store).HasSource t.collection.source

namespace Housed

theorem congr (h : w.Housed) (hstores : w'.stores = w.stores) (hhas : ∀ t, w'.Has t → w.Has t) :
    w'.Housed := by
  have hmemory : ∀ name, w'.memory name = w.memory name := fun name => by
    unfold memory
    rw [hstores]
  refine ⟨fun name => ?_, fun t ht => ?_⟩
  · rw [hmemory]
    exact h.keyed name
  · rw [hmemory]
    exact h.sources t (hhas t ht)

theorem setMemory (h : w.Housed) {m : Memory} (hm : (w.memory name).Grows m) :
    (w.setMemory name m).Housed := by
  refine ⟨fun other => ?_, fun t ht => ?_⟩
  · by_cases hother : other = name
    · rw [hother, memory_setMemory]
      exact hm.keyed
    · rw [memory_setMemory_of_ne hother]
      exact h.keyed other
  · have hsource := h.sources t ht
    by_cases hother : t.store = name
    · rw [hother, memory_setMemory]
      exact hm.sources _ (hother ▸ hsource)
    · rw [memory_setMemory_of_ne hother]
      exact hsource

theorem event (h : w.Housed) (name : String) (e : Memory.Event) :
    (w.setMemory name (e.act (w.memory name))).Housed := h.setMemory ((h.keyed name).act e)

theorem keptByCalls : KeptByCalls Housed := keptByCalls_of_events fun _ name e h => h.event name e

theorem addTable (h : w.Housed) (handle title : String) {c : Context} (columns : Columns)
    {ref : CollectionRef} (href : (w.memory c.store).HasSource ref.source) :
    (addTable handle title c columns ref w).2.Housed := by
  rw [run_addTable]
  refine ⟨fun name => ?_, fun t ht => ?_⟩
  · rw [memory_withTable]
    exact h.keyed name
  · rw [memory_withTable]
    rcases has_withTable_cases ht with rfl | ht
    · exact href
    · exact h.sources t ht

theorem hasSource_readSchema (h : w.Housed) {id : String} {c : Collection}
    (hread : (storeAt name).readSchema id w = (.ok c, w')) :
    (w'.memory name).HasSource c.source := by
  obtain ⟨m, hm, rfl⟩ := onStore_eq hread
  rw [memory_setMemory]
  exact (h.keyed name).hasSource_readSchema hm

theorem hasSource_bind (h : w.Housed) {store title : String} {columns : Columns}
    {binding : Binding} {ref : CollectionRef}
    (href : Table.bind storeAt store title columns binding w = (.ok ref, w')) :
    (w'.memory store).HasSource ref.source := by
  cases binding with
  | under parent =>
    obtain ⟨m, hm, rfl⟩ := onStore_eq (asking_eq_ok href)
    rw [memory_setMemory]
    exact Memory.hasSource_addCollection hm
  | existing collection =>
    obtain ⟨found, w₁, hfound, href⟩ := run_bind_eq_ok href
    obtain ⟨_, w₂, hcheck, href⟩ := run_bind_eq_ok href
    obtain ⟨-, rfl⟩ := Prod.mk.inj hcheck
    obtain ⟨heq, rfl⟩ := Prod.mk.inj href
    obtain rfl := Except.ok.inj heq
    exact h.hasSource_readSchema (asking_eq_ok hfound)

theorem step (h : w.Housed) (hs : w.Step w') : w'.Housed := by
  rcases keptByCalls.toKeptByWrites.step h
    (fun name store limits => h.congr rfl fun _ ht => ht)
    (fun handle t ht => h.congr (setHandle_fields handle t w).2.1 fun u hu =>
      (has_setHandle hu).elim (fun heq => heq ▸ ht) id)
    (fun handle => h.congr (dropHandle_fields handle w).1 fun _ hu => has_dropHandle hu)
    (fun links _ => h.congr (setTargets_fields links w).2.2 fun t ht => by
      unfold Has at ht ⊢
      rwa [(setTargets_fields links w).1] at ht) hs with
    hsame | ⟨handle, title, c, columns, binding, rfl⟩ | ⟨handle, title, c, collection, rfl⟩
  · exact hsame
  · refine holds_bind (keptByCalls.bind c.store title columns binding w h) fun ref w₁ href => ?_
    have hbound := keptByCalls.bind c.store title columns binding w h
    rw [href] at hbound
    exact hbound.addTable handle title columns (h.hasSource_bind href)
  · have hread : Keeps Housed (asking (.introspect collection)
      ((storeAt c.store).readSchema collection)) := .asking (keptByCalls.readSchema _ _)
    have hhoused := hread w h
    refine holds_bind hhoused fun found w₁ hfound => ?_
    rw [hfound] at hhoused
    exact hhoused.addTable handle title _ (h.hasSource_readSchema (asking_eq_ok hfound))

end Housed

theorem housed_empty : empty.Housed :=
  ⟨fun _ => Memory.keyed_empty, fun _ ⟨_, h⟩ => nomatch h⟩

/-- Reached from the empty workspace by operations on tables, with any events in the stores between
them. -/
def Arisen : Workspace → Prop :=
  Relation.ReflTransGen (fun w w' => w.Step w' ∨
    ∃ name, ∃ e : Memory.Event, w' = w.setMemory name (e.act (w.memory name))) empty

theorem Arisen.housed (h : w.Arisen) : w.Housed := by
  induction h with
  | refl => exact housed_empty
  | tail _ hs ih =>
    rcases hs with hs | ⟨name, e, rfl⟩
    · exact ih.step hs
    · exact ih.event name e

theorem Arisen.reachable (h : w.Arisen) : w.Reachable := by
  induction h with
  | refl => exact .refl
  | tail _ hs ih => exact ih.tail (hs.imp id fun ⟨name, _, hw⟩ => ⟨name, _, hw⟩)

end Workspace
end DocTables
