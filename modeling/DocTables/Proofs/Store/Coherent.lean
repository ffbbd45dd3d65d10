import DocTables.Column.Schema
import DocTables.Proofs.KeyMap
import DocTables.Proofs.Store.Written
import DocTables.Store.Memory.Calls

/-!
What holds in a store in memory between calls: collections and data sources name each other, and the
records of a watched data source hold properties of the types that its schema declares. Every call
keeps this and no call changes a declared type, provided what is written has the declared types.
-/
namespace DocTables.Memory
open Outcome

/-- Records are numbered in the order in which they were added. -/
def Numbered (m : Memory) : Prop :=
  m.records.map (·.record.id) =
    (List.range m.records.length).map fun i => "rec-" ++ toString (i + 1)

/-- Records are told apart by their ids. -/
theorem Numbered.nodup {m : Memory} (h : m.Numbered) : (m.records.map (·.record.id)).Nodup := by
  rw [h]
  refine (List.nodup_range).map ?_
  intro i j hij
  exact Nat.succ_injective (Text.numbered_injective "rec-" hij)

/-- A record is the only one with its id. -/
theorem Numbered.find?_id {m : Memory} (h : m.Numbered) {s : SourcedRecord} (hs : s ∈ m.records) :
    (m.records.find? fun s' => s'.record.id = s.record.id) = some s := by
  cases hfind : m.records.find? fun s' => s'.record.id = s.record.id with
  | none => simpa using List.find?_eq_none.mp hfind s hs
  | some s' =>
    have hid : s'.record.id = s.record.id := by simpa using List.find?_some hfind
    rw [List.inj_on_of_nodup_map h.nodup (List.mem_of_find?_eq_some hfind) hs hid]

/-- Collections and data sources name each other, every record is in a data source, the next names
are free, and no call has been told to fail. -/
structure Coherent (m : Memory) : Prop where
  failures : m.failures = []
  collection : ∀ {source id}, m.sources.get? source = some id →
    ∃ c, m.collections.get? id = some c ∧ c.source = source
  source : ∀ {id c}, m.collections.get? id = some c → c.id = id ∧ m.sources.get? c.source = some id
  fresh : ∀ n, m.created < n → m.sources.get? ("new-ds-" ++ toString n) = none ∧
    m.collections.get? ("new-col-" ++ toString n) = none
  records : ∀ s ∈ m.records, ∃ id, m.sources.get? s.source = some id
  ids : m.records.map (·.record.id) =
    (List.range m.records.length).map fun i => "rec-" ++ toString (i + 1)

/-- The schema of a data source declares a property of type `t`. -/
def Declares (m : Memory) (source name : String) (t : PropertyType) : Prop :=
  ∃ c, m.collectionOf source = .ok c ∧ Columns.declared? c.properties name = some t.key

/-- The records of a data source hold properties of declared types. -/
structure Typed (m : Memory) (source : String) : Prop where
  sorted : ∀ {c}, m.collectionOf source = .ok c → c.properties.Sorted
  written : ∀ s ∈ m.records, s.source = source → ∀ {name p},
    s.record.properties.get? name = some p → ∃ t, m.Declares source name t ∧ Written t p

/-- A coherent memory with its watched data sources. -/
structure Sound (watched : String → Prop) (m : Memory) : Prop where
  coherent : m.Coherent
  registered : ∀ {source}, watched source → ∃ id, m.sources.get? source = some id
  typed : ∀ {source}, watched source → m.Typed source

/-- A sound memory after another: data sources stay where they are, and so do the declared types
of the watched ones. -/
structure Continues (watched : String → Prop) (m m' : Memory) : Prop where
  sound : m'.Sound watched
  sources : ∀ {source id}, m.sources.get? source = some id → m'.sources.get? source = some id
  declares : ∀ {source name t}, watched source → m.Declares source name t →
    m'.Declares source name t

theorem collectionOf_eq_ok {m : Memory} {source : String} {c : Collection} :
    m.collectionOf source = .ok c ↔
      ∃ id, m.sources.get? source = some id ∧ m.collections.get? id = some c := by
  unfold collectionOf
  cases m.sources.get? source with
  | none => simp
  | some id =>
    simp only [Option.some.injEq, exists_eq_left']
    cases m.collections.get? id <;> simp

theorem Declares.unique {m : Memory} {source name : String} {t u : PropertyType}
    (ht : m.Declares source name t) (hu : m.Declares source name u) : t = u := by
  obtain ⟨c, hc, ht⟩ := ht
  obtain ⟨c', hc', hu⟩ := hu
  obtain rfl := Except.ok.inj (hc.symm.trans hc')
  exact PropertyType.key_injective (Option.some.inj (ht.symm.trans hu))

variable {watched : String → Prop} {m m' m'' : Memory}

theorem Continues.refl (h : m.Sound watched) : Continues watched m m :=
  ⟨h, id, fun _ hd => hd⟩

theorem Continues.trans (h : Continues watched m m') (h' : Continues watched m' m'') :
    Continues watched m m'' :=
  ⟨h'.sound, fun hs => h'.sources (h.sources hs), fun hw hd => h'.declares hw (h.declares hw hd)⟩

theorem coherent_empty : Memory.empty.Coherent :=
  ⟨rfl, nofun, nofun, fun _ _ => ⟨rfl, rfl⟩, nofun, rfl⟩

namespace Coherent

theorem collectionOf (h : m.Coherent) {source id : String} (hs : m.sources.get? source = some id) :
    ∃ c, m.collectionOf source = .ok c ∧ c.id = id ∧ c.source = source := by
  obtain ⟨c, hc, hsource⟩ := h.collection hs
  exact ⟨c, collectionOf_eq_ok.mpr ⟨id, hs, hc⟩, (h.source hc).1, hsource⟩

theorem of_collectionOf (h : m.Coherent) {source : String} {c : Collection}
    (hc : m.collectionOf source = .ok c) :
    c.source = source ∧ m.sources.get? source = some c.id ∧ m.collections.get? c.id = some c := by
  obtain ⟨id, hs, hid⟩ := collectionOf_eq_ok.mp hc
  obtain ⟨rfl, hback⟩ := h.source hid
  obtain ⟨c', hc', hsource⟩ := h.collection hs
  obtain rfl := Option.some.inj (hid.symm.trans hc')
  exact ⟨hsource, hs, hid⟩

theorem failure? (h : m.Coherent) (method : Method) : m.failure? method = none := by
  simp [Memory.failure?, h.failures]

theorem ids_nodup (h : m.Coherent) : (m.records.map (·.record.id)).Nodup := Numbered.nodup h.ids

/-- The next id is free. -/
theorem id_fresh (h : m.Coherent) {s : SourcedRecord} (hs : s ∈ m.records) :
    s.record.id ≠ "rec-" ++ toString (m.records.length + 1) := by
  have hmem := List.mem_map_of_mem (f := fun s : SourcedRecord => s.record.id) hs
  rw [h.ids, List.mem_map] at hmem
  obtain ⟨i, hi, he⟩ := hmem
  intro hne
  have heq := Text.numbered_injective "rec-" (he.trans hne)
  have hlt := List.mem_range.mp hi
  omega

end Coherent

/-- Notes about calls and reading change nothing else. -/
theorem Sound.notes (h : m.Sound watched) (calls : List Call) (reading mostReading : Nat) :
    Continues watched m
      { m with calls := calls, reading := reading, mostReading := mostReading } where
  sound := {
    coherent := ⟨h.coherent.failures, h.coherent.collection, h.coherent.source, h.coherent.fresh,
      h.coherent.records, h.coherent.ids⟩
    registered := h.registered
    typed := fun hw => ⟨(h.typed hw).sorted, (h.typed hw).written⟩ }
  sources := id
  declares := fun _ hd => hd

theorem declares_congr {source : String} (hc : m'.collectionOf source = m.collectionOf source)
    {name : String} {t : PropertyType} :
    m'.Declares source name t ↔ m.Declares source name t := by
  rw [Declares, Declares, hc]

theorem Typed.congr {source : String} (h : m.Typed source)
    (hc : m'.collectionOf source = m.collectionOf source) (hr : m'.records = m.records) :
    m'.Typed source where
  sorted hc' := h.sorted (hc ▸ hc')
  written s hs hsource name p hp := by
    obtain ⟨t, hd, hw⟩ := h.written s (hr ▸ hs) hsource hp
    exact ⟨t, (declares_congr hc).mpr hd, hw⟩

section AddCollection
variable {c : Collection} {created : Nat}

/-- The memory with a collection in place whose names are new, and no more than `created` numbers
used up in names. -/
def seeded (m : Memory) (c : Collection) (created : Nat) : Memory :=
  { m.seed c with created := created }

/-- Names of a collection that are not in the memory and will not be given to another one. -/
structure Free (m : Memory) (c : Collection) (created : Nat) : Prop where
  source : m.sources.get? c.source = none
  collection : m.collections.get? c.id = none
  bound : m.created ≤ created
  next : ∀ n, created < n →
    "new-ds-" ++ toString n ≠ c.source ∧ "new-col-" ++ toString n ≠ c.id

theorem get?_sources_seeded (m : Memory) (c : Collection) (created : Nat) (source : String) :
    (m.seeded c created).sources.get? source =
      if source = c.source then some c.id else m.sources.get? source :=
  KeyMap.get?_insert m.sources source c.source c.id

theorem get?_collections_seeded (m : Memory) (c : Collection) (created : Nat) (id : String) :
    (m.seeded c created).collections.get? id =
      if id = c.id then some { c with properties := c.properties.map Stamp.tagged }
      else m.collections.get? id :=
  KeyMap.get?_insert m.collections id c.id _

theorem Coherent.ne_of_free (h : m.Coherent) (hfree : m.Free c created) {source id : String}
    (hs : m.sources.get? source = some id) : source ≠ c.source ∧ id ≠ c.id := by
  constructor
  · rintro rfl
    exact nomatch hfree.source.symm.trans hs
  · rintro rfl
    obtain ⟨c', hc', -⟩ := h.collection hs
    exact nomatch hfree.collection.symm.trans hc'

/-- What was there before a new collection stays in place. -/
theorem Coherent.collectionOf_seeded (h : m.Coherent) (hfree : m.Free c created)
    {source id : String} (hs : m.sources.get? source = some id) :
    (m.seeded c created).sources.get? source = some id ∧
      (m.seeded c created).collectionOf source = m.collectionOf source := by
  obtain ⟨hsource, hid⟩ := h.ne_of_free hfree hs
  have hsources : (m.seeded c created).sources.get? source = some id := by
    rw [get?_sources_seeded, if_neg hsource, hs]
  refine ⟨hsources, ?_⟩
  simp only [Memory.collectionOf, hsources, hs, get?_collections_seeded, if_neg hid]

theorem Coherent.seeded (h : m.Coherent) (hfree : m.Free c created) :
    (m.seeded c created).Coherent := by
  refine ⟨h.failures, ?_, ?_, ?_, ?_, h.ids⟩
  · intro source id hs
    rw [get?_sources_seeded] at hs
    split at hs
    next hnew =>
      obtain rfl := Option.some.inj hs
      refine ⟨{ c with properties := c.properties.map Stamp.tagged }, ?_, hnew.symm⟩
      rw [get?_collections_seeded, if_pos rfl]
    next =>
      obtain ⟨c', hc', hsource⟩ := h.collection hs
      refine ⟨c', ?_, hsource⟩
      rw [get?_collections_seeded, if_neg (h.ne_of_free hfree hs).2, hc']
  · intro id c' hc'
    rw [get?_collections_seeded] at hc'
    split at hc'
    next hnew =>
      obtain rfl := Option.some.inj hc'
      exact ⟨hnew.symm, by rw [get?_sources_seeded, if_pos rfl, hnew]⟩
    next =>
      obtain ⟨hid, hs⟩ := h.source hc'
      exact ⟨hid, (h.collectionOf_seeded hfree hs).1⟩
  · intro n hn
    have hn' : created < n := hn
    have hbound := hfree.bound
    obtain ⟨hfresh, hfreshId⟩ := h.fresh n (by omega)
    obtain ⟨hsource, hid⟩ := hfree.next n hn'
    rw [get?_sources_seeded, if_neg hsource, get?_collections_seeded, if_neg hid]
    exact ⟨hfresh, hfreshId⟩
  · intro s hs
    obtain ⟨id, hid⟩ := h.records s hs
    exact ⟨id, (h.collectionOf_seeded hfree hid).1⟩

theorem Sound.seeded (h : m.Sound watched) (hfree : m.Free c created) :
    Continues watched m (m.seeded c created) := by
  have hsame : ∀ {source}, watched source →
      (m.seeded c created).collectionOf source = m.collectionOf source := by
    intro source hw
    obtain ⟨id, hid⟩ := h.registered hw
    exact (h.coherent.collectionOf_seeded hfree hid).2
  refine ⟨⟨h.coherent.seeded hfree, ?_, ?_⟩, ?_, ?_⟩
  · intro source hw
    obtain ⟨id, hid⟩ := h.registered hw
    exact ⟨id, (h.coherent.collectionOf_seeded hfree hid).1⟩
  · intro source hw
    exact (h.typed hw).congr (hsame hw) rfl
  · intro source id hs
    exact (h.coherent.collectionOf_seeded hfree hs).1
  · intro source name t hw hd
    exact (declares_congr (hsame hw)).mpr hd

/-- The names of the next collection that is made. -/
theorem Coherent.free_next (h : m.Coherent) (properties : Properties) :
    m.Free ⟨"new-col-" ++ toString (m.created + 1), "new-ds-" ++ toString (m.created + 1),
      properties⟩ (m.created + 1) := by
  obtain ⟨hsource, hid⟩ := h.fresh (m.created + 1) (Nat.lt_succ_self _)
  refine ⟨hsource, hid, Nat.le_succ _, fun n hn => ⟨fun he => ?_, fun he => ?_⟩⟩
  · have heq := Text.numbered_injective "new-ds-" he
    omega
  · have heq := Text.numbered_injective "new-col-" he
    omega

theorem Sound.addCollection (h : m.Sound watched) (properties : Properties) :
    Continues watched m (addCollection properties m).2 :=
  h.seeded (h.coherent.free_next properties)

end AddCollection

section ExtendSchema
variable {source : String} {c : Collection} {properties : Properties}

/-- The memory after a schema has been extended. -/
def extended (m : Memory) (c : Collection) (properties : Properties) : Memory :=
  { m with
    collections := m.collections.insert c.id
      { c with properties := c.properties.union (properties.map Stamp.tagged) } }

theorem extendSchema_eq_ok {u : Unit × Memory} :
    extendSchema source properties m = .ok u ↔
      ∃ c, m.collectionOf source = .ok c ∧ u = ((), m.extended c properties) := by
  rw [extendSchema, bind_eq_ok]
  simp only [extended, pure, Except.pure, Except.ok.injEq, eq_comm]

theorem Coherent.collectionOf_extended (h : m.Coherent) (hc : m.collectionOf source = .ok c)
    (other : String) :
    (m.extended c properties).collectionOf other =
      if other = source then
        .ok { c with properties := c.properties.union (properties.map Stamp.tagged) }
      else m.collectionOf other := by
  obtain ⟨hsource, hs, hid⟩ := h.of_collectionOf hc
  split
  next he =>
    subst he
    exact collectionOf_eq_ok.mpr ⟨c.id, hs, KeyMap.get?_insert_self _ _ _⟩
  next hne =>
    unfold Memory.collectionOf
    have hsame : (m.extended c properties).sources = m.sources := rfl
    rw [hsame]
    cases hother : m.sources.get? other with
    | none => rfl
    | some id =>
      -- Another data source belongs to another collection.
      have hdiffer : id ≠ c.id := by
        rintro rfl
        obtain ⟨c', hc', hsource'⟩ := h.collection hother
        obtain rfl := Option.some.inj (hid.symm.trans hc')
        exact hne (hsource'.symm.trans hsource)
      simp only [extended]
      rw [KeyMap.get?_insert_of_ne hdiffer]

theorem Coherent.extended (h : m.Coherent) (hc : m.collectionOf source = .ok c)
    (properties : Properties) : (m.extended c properties).Coherent := by
  obtain ⟨hsource, hs, hid⟩ := h.of_collectionOf hc
  refine ⟨h.failures, ?_, ?_, ?_, h.records, h.ids⟩
  · intro other id hother
    obtain ⟨c', hc', hsource'⟩ := h.collection hother
    simp only [Memory.extended, KeyMap.get?_insert]
    split
    next he =>
      subst he
      obtain rfl := Option.some.inj (hid.symm.trans hc')
      exact ⟨_, rfl, hsource'⟩
    next => exact ⟨c', hc', hsource'⟩
  · intro id c' hc'
    simp only [Memory.extended, KeyMap.get?_insert] at hc'
    split at hc'
    next he =>
      obtain rfl := Option.some.inj hc'
      exact ⟨he.symm, by rw [he]; exact hsource ▸ hs⟩
    next => exact h.source hc'
  · intro n hn
    obtain ⟨hfresh, hfreshId⟩ := h.fresh n hn
    refine ⟨hfresh, ?_⟩
    simp only [Memory.extended, KeyMap.get?_insert]
    rw [if_neg, hfreshId]
    rintro he
    exact nomatch (he ▸ hfreshId).symm.trans hid

/-- Declarations that repeat the types of a schema where it has them. -/
def Redeclares (m : Memory) (source : String) (properties : Properties) : Prop :=
  ∀ e ∈ properties.entries, ∀ {t}, m.Declares source e.1 t →
    (Stamp.tagged e.2).declaredType? = some t.key

theorem declares_extended (h : m.Coherent) (hc : m.collectionOf source = .ok c)
    (hnew : m.Redeclares source properties) {other name : String} {t : PropertyType}
    (hd : m.Declares other name t) : (m.extended c properties).Declares other name t := by
  unfold Declares
  rw [h.collectionOf_extended hc]
  split
  next he =>
    subst he
    obtain ⟨c', hc', ht⟩ := hd
    obtain rfl := Except.ok.inj (hc.symm.trans hc')
    refine ⟨_, rfl, ?_⟩
    obtain ⟨p, hp, hdeclared⟩ := Option.bind_eq_some_iff.mp ht
    unfold Columns.declared?
    rw [KeyMap.get?_union, hp]
    cases hl : KeyMap.lookup name (properties.map Stamp.tagged).entries.reverse with
    | none => exact hdeclared
    | some q =>
      have hmem := List.mem_reverse.mp (KeyMap.mem_of_lookup hl)
      obtain ⟨e, he, heq⟩ := List.mem_map.mp hmem
      obtain ⟨rfl, rfl⟩ := Prod.mk.inj heq
      exact hnew e he ⟨c, hc, ht⟩
  next => exact hd

theorem Sound.extendSchema (h : m.Sound watched) {u : Unit × Memory}
    (hu : extendSchema source properties m = .ok u)
    (hnew : watched source → m.Redeclares source properties) : Continues watched m u.2 := by
  obtain ⟨c, hc, rfl⟩ := extendSchema_eq_ok.mp hu
  have hd : ∀ {other name t}, watched other → m.Declares other name t →
      (m.extended c properties).Declares other name t := by
    intro other name t hw hd
    by_cases he : other = source
    · exact declares_extended h.coherent hc (hnew (he ▸ hw)) hd
    · rwa [declares_congr]
      rw [h.coherent.collectionOf_extended hc, if_neg he]
  refine ⟨⟨h.coherent.extended hc properties, h.registered, fun hw => ⟨?_, ?_⟩⟩, id, hd⟩
  · intro c' hc'
    rw [h.coherent.collectionOf_extended hc] at hc'
    split at hc'
    next he =>
      obtain rfl := Except.ok.inj hc'
      exact ((h.typed hw).sorted (he ▸ hc)).union _
    next => exact (h.typed hw).sorted hc'
  · intro s hs hsource name p hp
    obtain ⟨t, hdt, hwritten⟩ := (h.typed hw).written s hs hsource hp
    exact ⟨t, hd hw hdt, hwritten⟩

end ExtendSchema

end DocTables.Memory
