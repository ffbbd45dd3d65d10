import DocTables.Proofs.Column.Rows
import DocTables.Relation.Declaration

/-!
The types that schemas declare: those of the columns that a schema was made from or checked against,
and those of links.
-/
namespace DocTables
open Outcome

namespace Stamp

/-- A tag repeats the type that is declared. -/
theorem declaredType?_tagged {j : Json} {t : String} (h : j.declaredType? = some t) :
    (tagged j).declaredType? = some t := by
  unfold tagged
  split
  next fields t' ht =>
    obtain rfl := Option.some.inj (ht.symm.trans h)
    split
    next => exact h
    next => simp [Json.declaredType?]
  next => exact h

theorem declaredType?_config (c : Codec) : (tagged c.config).declaredType? = some c.type.key :=
  declaredType?_tagged (declaredType?_property c.type c.declaration)

/-- A link declares a relation. -/
theorem declaredType?_relationConfig (source : String) (sides : Sidedness) :
    (tagged (relationConfig source sides)).declaredType? = some PropertyType.relation.key :=
  declaredType?_tagged (declaredType?_property .relation _)

theorem declaredType?_stamp (t : PropertyType) (content : Json) :
    (property t content).declaredType? = some t.key := by
  simp [property, Json.ofFields, Json.declaredType?, KeyMap.lookup, t.key_ne_type]

end Stamp

/-- What a store holds for a property says of which type it is. -/
theorem Written.declaredType? {t : PropertyType} {p : Json} (h : Written t p) :
    p.declaredType? = some t.key := by
  cases h with
  | @stored c v w htype hw =>
    obtain ⟨j, -, rfl⟩ := map_eq_ok.mp hw
    rw [← htype]
    exact Stamp.declaredType?_tagged (Stamp.declaredType?_property c.type j)
  | cleared htype =>
    rw [← htype]
    exact Stamp.declaredType?_tagged (Stamp.declaredType?_property _ _)
  | stamped => exact Stamp.declaredType?_stamp t _

namespace Columns
variable {columns : Columns} {properties : Properties}

/-- A schema has a property of the right type for every column. -/
def Declared (columns : Columns) (properties : Properties) : Prop :=
  ∀ e ∈ columns.entries, declared? properties e.2.name = some e.2.type.key

theorem declared_schema (hnames : columns.NamesDistinct) :
    columns.Declared (columns.schema.map Stamp.tagged) := by
  intro e he
  have hn : ((columns.entries.map fun e => (e.2.name, e.2.codec.config)).map Prod.fst).Nodup := by
    simpa [NamesDistinct, KeyMap.values, Function.comp_def] using hnames
  have hget : columns.schema.get? e.2.name = some e.2.codec.config := by
    rw [schema, KeyMap.get?_ofList, KeyMap.lookup_reverse hn]
    exact KeyMap.lookup_of_mem hn
      (List.mem_map_of_mem (f := fun e => (e.2.name, e.2.codec.config)) he)
  rw [declared?, KeyMap.get?_map, hget]
  exact Stamp.declaredType?_config e.2.codec

theorem checkSchema_eq_ok :
    columns.checkSchema properties = .ok () ↔ columns.Declared properties := by
  unfold checkSchema
  split
  next hnone => simpa [agrees, Declared] using hnone
  next key c hsome =>
    have hdiffers := List.find?_some hsome
    have hmem := List.mem_of_find?_eq_some hsome
    simp only [reduceCtorEq, false_iff]
    intro hdeclared
    simp [agrees, hdeclared _ hmem] at hdiffers

theorem declared_ofSchema (hs : properties.Sorted) : (ofSchema properties).Declared properties := by
  intro e he
  obtain ⟨⟨name, config⟩, hmem, hcolumn⟩ := List.mem_filterMap.mp he
  obtain ⟨c, hc, rfl⟩ := Option.map_eq_some_iff.mp hcolumn
  obtain ⟨t, ht, rfl⟩ := Option.map_eq_some_iff.mp hc
  obtain ⟨k, hk, ht⟩ := Option.bind_eq_some_iff.mp ht
  obtain rfl := PropertyType.key_of_ofKey? ht
  have htype : (Codec.ofConfig t config).type = t := by cases t <;> rfl
  rw [declared?, hs.get?_of_mem hmem]
  simp only [Column.type, htype]
  exact hk

end Columns

theorem Table.relationColumn_eq_ok {t : Table} {key : String} {c : Column}
    (h : t.relationColumn key = .ok c) : (key, c) ∈ t.columns.entries ∧ c.type = .relation := by
  obtain ⟨c', hc, h⟩ := bind_eq_ok.mp h
  split at h
  next htype =>
    obtain rfl := Except.ok.inj h
    exact ⟨KeyMap.mem_of_get? (Columns.get?_of_column? hc), htype⟩
  next => simp at h

end DocTables
