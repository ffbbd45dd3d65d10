import DocTables.Proofs.Store.Coherent

/-!
Records as they are added and changed: which stamps the store sets, and that records keep their ids,
their data sources, and properties of the types that the schema declares.
-/
namespace DocTables
open Outcome

namespace Stamp

/-- The stamps of a new record stand under the names of maintained properties. -/
theorem mem_ofNew {schema : Properties} {now : String} {number : Nat} {e : String × Json}
    (h : e ∈ (ofNew schema now number).entries) :
    ∃ config t content, (e.1, config) ∈ schema.entries ∧
      config.declaredType? = some t.key ∧ content? t config now number = some content ∧
      e.2 = property t content := by
  obtain ⟨⟨name, config⟩, hmem, h⟩ := List.mem_filterMap.mp h
  obtain ⟨t, ht, h⟩ := Option.bind_eq_some_iff.mp h
  obtain ⟨k, hk, ht⟩ := Option.bind_eq_some_iff.mp ht
  obtain ⟨content, hcontent, h⟩ := Option.bind_eq_some_iff.mp h
  obtain rfl := Option.some.inj h
  obtain rfl := PropertyType.key_of_ofKey? ht
  exact ⟨config, t, content, hmem, hk, hcontent, rfl⟩

/-- The schema declares a time of last edit of this name. -/
def Renews (schema : Properties) (name : String) : Prop :=
  ∃ config, (name, config) ∈ schema.entries ∧
    config.declaredType? = some PropertyType.lastEditedTime.key

theorem mem_ofEdit {schema : Properties} {now : String} {e : String × Json} :
    e ∈ (ofEdit schema now).entries ↔
      Renews schema e.1 ∧ e.2 = property .lastEditedTime (.string now) := by
  obtain ⟨name, value⟩ := e
  simp only [ofEdit, List.mem_filterMap, Renews]
  constructor
  · rintro ⟨f, hf, hsome⟩
    split at hsome
    next hdeclared =>
      obtain ⟨rfl, rfl⟩ := Prod.mk.inj (Option.some.inj hsome)
      exact ⟨⟨f.2, hf, hdeclared⟩, rfl⟩
    next => exact nomatch hsome
  · rintro ⟨⟨config, hmem, hdeclared⟩, rfl⟩
    exact ⟨(name, config), hmem, by simp [hdeclared]⟩

/-- The store has a content for a property exactly when it maintains it. -/
theorem isSome_content? (t : PropertyType) (config : Json) (now : String) (number : Nat) :
    (content? t config now number).isSome = t.isMaintained := by
  cases t <;> rfl

theorem fst_of_field? {now : String} {number : Nat} {e e' : String × Json}
    (h : field? now number e = some e') : e'.1 = e.1 := by
  obtain ⟨t, -, h⟩ := Option.bind_eq_some_iff.mp h
  obtain ⟨content, -, h⟩ := Option.bind_eq_some_iff.mp h
  rw [← Option.some.inj h]

theorem nodup_ofNew {schema : Properties} (hs : schema.Sorted) (now : String) (number : Nat) :
    ((ofNew schema now number).entries.map Prod.fst).Nodup :=
  hs.nodup.sublist (KeyMap.keys_filterMap (fun _ _ h => fst_of_field? h) schema.entries)

theorem get?_ofNew {schema : Properties} (hs : schema.Sorted) {now : String} {number : Nat}
    {name : String} {config : Json} {t : PropertyType} (hget : schema.get? name = some config)
    (ht : config.declaredType? = some t.key) :
    (ofNew schema now number).get? name =
      (content? t config now number).map (property t) := by
  have hkey : ∀ e e', field? now number e = some e' → e'.1 = e.1 := fun _ _ h => fst_of_field? h
  have hlookup := KeyMap.lookup_filterMap hkey hs.nodup (KeyMap.mem_of_get? hget)
  have hfield : field? now number (name, config) =
      (content? t config now number).map fun content => (name, property t content) := by
    cases hcontent : content? t config now number <;>
      simp [field?, ht, PropertyType.ofKey?_key, hcontent]
  rw [hfield, Option.map_map] at hlookup
  exact hlookup

end Stamp

namespace Memory
variable {watched : String → Prop} {m : Memory} {source : String} {c : Collection}

/-- Properties of the types that the schema of a data source declares. -/
def Accepts (m : Memory) (source : String) (properties : Properties) : Prop :=
  ∀ e ∈ properties.entries, ∃ t, m.Declares source e.1 t ∧ Written t (Stamp.tagged e.2)

/-- What a record holds under a name is of the declared type. -/
def Holds (m : Memory) (source : String) (properties : Properties) : Prop :=
  ∀ name p, properties.get? name = some p → ∃ t, m.Declares source name t ∧ Written t p

theorem Accepts.holds {properties : Properties} (h : m.Accepts source properties) :
    m.Holds source (properties.map Stamp.tagged) := by
  intro name p hp
  obtain ⟨⟨k, j⟩, he, heq⟩ := List.mem_map.mp (KeyMap.mem_of_get? hp)
  obtain ⟨rfl, rfl⟩ := Prod.mk.inj heq
  exact h (k, j) he

theorem Holds.union {ps qs : Properties} (h : m.Holds source ps)
    (hq : ∀ e ∈ qs.entries, ∃ t, m.Declares source e.1 t ∧ Written t e.2) :
    m.Holds source (ps.union qs) := by
  intro name p hp
  rcases KeyMap.mem_of_get?_union hp with hmem | hget
  · exact hq _ hmem
  · exact h name p hget

theorem declares_of_mem (hc : m.collectionOf source = .ok c) (hs : c.properties.Sorted)
    {name : String} {config : Json} {t : PropertyType}
    (hmem : (name, config) ∈ c.properties.entries) (ht : config.declaredType? = some t.key) :
    m.Declares source name t :=
  ⟨c, hc, by rw [Columns.declared?, hs.get?_of_mem hmem]; exact ht⟩

theorem holds_newRecord (hc : m.collectionOf source = .ok c) (hs : c.properties.Sorted)
    {properties : Properties} (h : m.Accepts source properties) :
    m.Holds source (m.newRecord c source properties).properties := by
  refine h.holds.union fun e he => ?_
  obtain ⟨config, t, content, hmem, ht, hcontent, heq⟩ := Stamp.mem_ofNew he
  refine ⟨t, declares_of_mem hc hs hmem ht, ?_⟩
  rw [heq]
  exact .stamped hcontent

theorem holds_changed (hc : m.collectionOf source = .ok c) (hs : c.properties.Sorted)
    {change : Change} {r : Record} {n : Nat} (h : m.Holds source r.properties)
    (hchange : ∀ ps, change = .properties ps → m.Accepts source ps) :
    m.Holds source (changed c.properties n change r).properties := by
  have hedit : ∀ e ∈ (Stamp.ofEdit c.properties (Stamp.time n)).entries,
      ∃ t, m.Declares source e.1 t ∧ Written t e.2 := by
    intro e he
    obtain ⟨⟨config, hmem, ht⟩, heq⟩ := Stamp.mem_ofEdit.mp he
    refine ⟨.lastEditedTime, declares_of_mem hc hs hmem ht, ?_⟩
    have hcontent : Stamp.content? .lastEditedTime config (Stamp.time n) 0 =
        some (.string (Stamp.time n)) := rfl
    rw [heq]
    exact .stamped hcontent
  cases change with
  | properties ps =>
    refine Holds.union (h.union fun e he => ?_) hedit
    obtain ⟨e', hmem, rfl⟩ := List.mem_map.mp he
    exact hchange ps rfl e' hmem
  | archived flag => exact Holds.union h hedit

/-- Records may change while collections stay, if those of watched data sources hold properties of
declared types. -/
theorem Sound.continues {m' : Memory} (h : m.Sound watched) (hcoherent : m'.Coherent)
    (hsources : m'.sources = m.sources) (hcollections : m'.collections = m.collections)
    (hholds : ∀ s ∈ m'.records, watched s.source → m.Holds s.source s.record.properties) :
    Continues watched m m' := by
  have hsame : ∀ source, m'.collectionOf source = m.collectionOf source := by
    intro source
    unfold Memory.collectionOf
    rw [hsources, hcollections]
  refine ⟨⟨hcoherent, ?_, ?_⟩, ?_, ?_⟩
  · intro source hw
    rw [hsources]
    exact h.registered hw
  · intro source hw
    constructor
    · intro c hc
      rw [hsame] at hc
      exact (h.typed hw).sorted hc
    · intro s hs hsource name p hp
      subst hsource
      obtain ⟨t, hdeclares, hwritten⟩ := hholds s hs hw name p hp
      exact ⟨t, (declares_congr (hsame s.source)).mpr hdeclares, hwritten⟩
  · intro source id hs
    rwa [hsources]
  · intro source name t _ hd
    exact (declares_congr (hsame source)).mpr hd

theorem Sound.holds (h : m.Sound watched) {s : SourcedRecord} (hs : s ∈ m.records)
    (hw : watched s.source) : m.Holds s.source s.record.properties :=
  fun _ _ hget => (h.typed hw).written s hs rfl hget

section AddRecord
variable {properties : Properties}

/-- A property of a new record is what the store assigns, else what it was given. -/
theorem get?_newRecord (hs : c.properties.Sorted) {name : String} {config : Json}
    {t : PropertyType} (hget : c.properties.get? name = some config)
    (ht : config.declaredType? = some t.key) :
    (m.newRecord c source properties).properties.get? name =
      ((Stamp.content? t config (Stamp.time (m.writes + 1))
        (m.records.countP (fun s => s.source = source) + 1)).map (Stamp.property t)).or
          ((properties.get? name).map Stamp.tagged) := by
  unfold newRecord
  simp only
  rw [KeyMap.get?_union, KeyMap.lookup_reverse (Stamp.nodup_ofNew hs _ _), KeyMap.get?_map]
  rw [← Stamp.get?_ofNew hs hget ht]
  rfl

/-- The memory after a record has been added. -/
def withRecord (m : Memory) (s : SourcedRecord) : Memory :=
  { m with writes := m.writes + 1, records := m.records ++ [s] }

theorem addRecord_eq_ok {u : Record × Memory} :
    addRecord source properties m = .ok u ↔
      ∃ c, m.collectionOf source = .ok c ∧ u = (m.newRecord c source properties,
        m.withRecord ⟨source, m.newRecord c source properties⟩) := by
  rw [addRecord, bind_eq_ok]
  simp only [withRecord, pure, Except.pure, Except.ok.injEq, eq_comm]

theorem Numbered.withRecord (h : m.Numbered) {s : SourcedRecord}
    (hs : s.record.id = "rec-" ++ toString (m.records.length + 1)) : (m.withRecord s).Numbered := by
  have hrecords : (m.withRecord s).records = m.records ++ [s] := rfl
  unfold Numbered
  rw [hrecords, List.map_append, h, List.length_append, List.length_singleton, List.range_succ,
    List.map_append, List.map_singleton, List.map_singleton, hs]

theorem Coherent.withRecord (h : m.Coherent) (hc : m.collectionOf source = .ok c) :
    (m.withRecord ⟨source, m.newRecord c source properties⟩).Coherent := by
  refine ⟨h.failures, h.collection, h.source, h.fresh, ?_, ?_⟩
  · intro s hs
    rcases List.mem_append.mp hs with hs | hs
    · exact h.records s hs
    · obtain rfl := List.mem_singleton.mp hs
      exact ⟨_, (h.of_collectionOf hc).2.1⟩
  · exact Numbered.withRecord h.ids rfl

theorem Sound.addRecord (h : m.Sound watched) {u : Record × Memory}
    (hu : addRecord source properties m = .ok u)
    (hnew : watched source → m.Accepts source properties) : Continues watched m u.2 := by
  obtain ⟨c, hc, rfl⟩ := addRecord_eq_ok.mp hu
  apply h.continues (h.coherent.withRecord hc) rfl rfl
  intro s hs hw
  rcases List.mem_append.mp hs with hs | hs
  · exact h.holds hs hw
  · obtain rfl := List.mem_singleton.mp hs
    exact holds_newRecord hc ((h.typed hw).sorted hc) (hnew hw)

end AddRecord

section ChangeRecord
variable {id : String} {change : Change}

/-- The data source of a record is this one, if there is such a record. -/
def Owns (m : Memory) (source id : String) : Prop :=
  ∀ s ∈ m.records, s.record.id = id → s.source = source

theorem id_changed (schema : Properties) (n : Nat) (change : Change) (r : Record) :
    (changed schema n change r).id = r.id := by
  cases change <;> rfl

/-- The memory after the record with the id of `r` has been replaced. -/
def withChanged (m : Memory) (r : Record) : Memory :=
  { m with writes := m.writes + 1, records := setRecord r m.records }

theorem changeRecord_eq_ok {u : Record × Memory} (h : changeRecord id change m = .ok u) :
    ∃ s c, s ∈ m.records ∧ s.record.id = id ∧ m.collectionOf s.source = .ok c ∧
      u = (changed c.properties (m.writes + 1) change s.record,
        m.withChanged (changed c.properties (m.writes + 1) change s.record)) := by
  unfold changeRecord at h
  split at h
  next => simp at h
  next s hs =>
    obtain ⟨c, hc, h⟩ := bind_eq_ok.mp h
    have hid : s.record.id = id := by simpa using List.find?_some hs
    exact ⟨s, c, List.mem_of_find?_eq_some hs, hid, hc, (Except.ok.inj h).symm⟩

/-- A record that is there is changed as the schema of its data source says. -/
theorem changeRecord_of_find {s : SourcedRecord} {c : Collection}
    (hs : (m.records.find? fun s => s.record.id = id) = some s)
    (hc : m.collectionOf s.source = .ok c) (change : Change) :
    changeRecord id change m = .ok (changed c.properties (m.writes + 1) change s.record,
      m.withChanged (changed c.properties (m.writes + 1) change s.record)) := by
  rw [changeRecord, hs]
  exact bind_eq_ok.mpr ⟨c, hc, rfl⟩

/-- A replaced record has the place, the id and the data source of the one before. -/
theorem mem_setRecord {r : Record} {s : SourcedRecord} {records : List SourcedRecord}
    (h : s ∈ setRecord r records) :
    ∃ s' ∈ records, s'.record.id = s.record.id ∧ s'.source = s.source ∧
      (s = s' ∨ s.record = r ∧ s'.record.id = r.id) := by
  obtain ⟨s', hs', rfl⟩ := List.mem_map.mp h
  refine ⟨s', hs', ?_⟩
  split
  next hid => exact ⟨hid, rfl, .inr ⟨rfl, hid⟩⟩
  next => exact ⟨rfl, rfl, .inl rfl⟩

theorem map_id_setRecord (r : Record) (records : List SourcedRecord) :
    (setRecord r records).map (·.record.id) = records.map (·.record.id) := by
  rw [setRecord, List.map_map]
  refine List.map_congr_left fun s _ => ?_
  simp only [Function.comp_apply]
  split
  next hid => exact hid.symm
  next => rfl

theorem Numbered.withChanged (h : m.Numbered) (r : Record) : (m.withChanged r).Numbered := by
  have hids : (m.withChanged r).records.map (·.record.id) = m.records.map (·.record.id) :=
    map_id_setRecord r m.records
  have hlength : (m.withChanged r).records.length = m.records.length := List.length_map ..
  unfold Numbered
  rw [hids, h, hlength]

theorem Coherent.withChanged (h : m.Coherent) (r : Record) : (m.withChanged r).Coherent := by
  refine ⟨h.failures, h.collection, h.source, h.fresh, ?_, ?_⟩
  · intro s hs
    obtain ⟨s', hs', -, hsource, -⟩ := mem_setRecord hs
    rw [← hsource]
    exact h.records s' hs'
  · exact Numbered.withChanged h.ids r

theorem Sound.changeRecord (h : m.Sound watched) {u : Record × Memory}
    (hu : changeRecord id change m = .ok u)
    (hchange : ∀ ps, change = .properties ps → ∀ s ∈ m.records, s.record.id = id →
      watched s.source → m.Accepts s.source ps) : Continues watched m u.2 := by
  obtain ⟨s, c, hs, hid, hc, rfl⟩ := changeRecord_eq_ok hu
  apply h.continues (h.coherent.withChanged _) rfl rfl
  intro s' hs' hw
  obtain ⟨s₀, hs₀, -, hsource, hcase⟩ := mem_setRecord hs'
  rw [← hsource] at hw ⊢
  rcases hcase with rfl | ⟨hrecord, hsame⟩
  · exact h.holds hs₀ hw
  · -- Ids are distinct, so the record that was replaced is the one that was found.
    rw [id_changed] at hsame
    obtain rfl : s₀ = s := List.inj_on_of_nodup_map h.coherent.ids_nodup hs₀ hs hsame
    rw [hrecord]
    have haccepts := fun ps hps => hchange ps hps s₀ hs hid hw
    exact holds_changed hc ((h.typed hw).sorted hc) (h.holds hs hw) haccepts

theorem Owns.changeRecord {source other : String} {u : Record × Memory} (h : m.Owns source other)
    (hu : changeRecord id change m = .ok u) : u.2.Owns source other := by
  obtain ⟨s, c, -, -, -, rfl⟩ := changeRecord_eq_ok hu
  intro s' hs' hid'
  obtain ⟨s₀, hs₀, hid₀, hsource₀, -⟩ := mem_setRecord hs'
  exact hsource₀ ▸ h s₀ hs₀ (hid₀.trans hid')

end ChangeRecord

end Memory
end DocTables
