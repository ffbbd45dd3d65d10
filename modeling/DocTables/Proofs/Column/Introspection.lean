import DocTables.Proofs.Column.Declared

/-!
Columns from schemas and back: a schema gives one column to each property of a known type, and the
columns it gives agree with it. Of the schema of given columns nothing is lost but declared options.
-/
namespace DocTables
open Outcome

namespace Codec

/-- The codec without the options it declares. -/
def withoutOptions : Codec → Codec
  | choice kind _ => choice kind none
  | multiSelect _ => multiSelect none
  | c => c

theorem type_ofConfig (t : PropertyType) (config : Json) : (ofConfig t config).type = t := by
  cases t <;> rfl

/-- A configuration gives its codec back, but for the options. -/
theorem ofConfig_config (c : Codec) : ofConfig c.type c.config = c.withoutOptions := by
  have hget : c.config.get? c.type.key = some c.declaration := get?_property c.type c.declaration
  cases c with
  | number format =>
    rw [type] at hget
    cases format <;> simp [ofConfig, type, hget, declaration, withoutOptions, KeyMap.lookup]
  | uniqueId label =>
    rw [type] at hget
    simp [ofConfig, type, hget, declaration, withoutOptions, KeyMap.lookup]
  | contact kind => cases kind <;> rfl
  | choice kind options => cases kind <;> rfl
  | _ => rfl

end Codec

namespace Column

def withoutOptions (c : Column) : Column := { c with codec := c.codec.withoutOptions }

theorem ofConfig?_eq_some {name : String} {config : Json} {c : Column} :
    ofConfig? name config = some c ↔ ∃ t, config.declaredType? = some t.key ∧
      c = ⟨name, .ofConfig t config, true, true, none⟩ := by
  simp only [ofConfig?, Option.map_eq_some_iff, Option.bind_eq_some_iff]
  constructor
  · rintro ⟨t, ⟨k, hk, ht⟩, rfl⟩
    obtain rfl := PropertyType.key_of_ofKey? ht
    exact ⟨t, hk, rfl⟩
  · rintro ⟨t, hk, rfl⟩
    exact ⟨t, ⟨t.key, hk, t.ofKey?_key⟩, rfl⟩

theorem ofConfig?_config (name : String) (c : Codec) :
    ofConfig? name c.config = some ⟨name, c.withoutOptions, true, true, none⟩ :=
  ofConfig?_eq_some.mpr ⟨c.type, Stamp.declaredType?_property c.type c.declaration,
    by rw [Codec.ofConfig_config]⟩

end Column

namespace Columns
variable {columns : Columns} {properties : Properties}

theorem key_of_ofConfig? {e : String × Json} {e' : String × Column}
    (h : ((Column.ofConfig? e.1 e.2).map fun c => (e.1, c)) = some e') : e'.1 = e.1 := by
  obtain ⟨c, -, rfl⟩ := Option.map_eq_some_iff.mp h
  rfl

theorem sorted_ofSchema (hs : properties.Sorted) : (ofSchema properties).Sorted :=
  List.pairwise_map.mp
    ((List.pairwise_map.mpr hs).sublist (KeyMap.keys_filterMap (fun _ _ => key_of_ofConfig?) _))

/-- The column that stands for a property is the one made of its configuration. -/
theorem get?_ofSchema (hs : properties.Sorted) (name : String) :
    (ofSchema properties).get? name = (properties.get? name).bind (Column.ofConfig? name) := by
  cases hget : properties.get? name with
  | none =>
    refine KeyMap.lookup_eq_none.mpr fun hmem => KeyMap.lookup_eq_none.mp hget ?_
    exact (KeyMap.keys_filterMap (fun _ _ => key_of_ofConfig?) _).subset hmem
  | some config =>
    have hlookup := KeyMap.lookup_filterMap (fun _ _ => key_of_ofConfig?) hs.nodup
      (KeyMap.mem_of_get? hget)
    rw [KeyMap.get?, ofSchema, hlookup]
    simp [Function.comp_def]

def withoutOptions (columns : Columns) : Columns := columns.map Column.withoutOptions

/-- The configuration that a codec read from a configuration declares in turn. -/
def reread (config : Json) : Json :=
  (Column.ofConfig? "" config).elim config fun c => c.codec.config

theorem reread_config (c : Codec) : reread c.config = c.withoutOptions.config := by
  rw [reread, Column.ofConfig?_config]
  rfl

theorem mem_schema {e : String × Json} (h : e ∈ columns.schema.entries) :
    ∃ c : Codec, e.2 = c.config := by
  obtain ⟨⟨key, c⟩, -, rfl⟩ := List.mem_map.mp (KeyMap.mem_ofList h)
  exact ⟨c.codec, rfl⟩

/-- Every property of a schema made from columns is read back under its name. -/
theorem entries_ofSchema_schema (columns : Columns) :
    (ofSchema columns.schema).entries.map (fun e => (e.2.name, e.2.codec.config)) =
      (columns.schema.map reread).entries := by
  rw [ofSchema, List.map_filterMap, KeyMap.map, ← List.filterMap_eq_map]
  refine List.filterMap_congr fun e he => ?_
  obtain ⟨c, hc⟩ := mem_schema he
  rw [hc, Column.ofConfig?_config, Function.comp_apply, hc, reread_config]
  rfl

theorem schema_ofSchema_schema (columns : Columns) :
    (ofSchema columns.schema).schema = columns.withoutOptions.schema := by
  have hmade : (ofSchema columns.schema).schema = columns.schema.map reread := by
    rw [schema, entries_ofSchema_schema]
    exact ((KeyMap.sorted_ofList _).map reread).ofList_entries
  have hdropped : columns.schema.map reread = columns.withoutOptions.schema := by
    rw [schema, KeyMap.map_ofList, schema, withoutOptions, KeyMap.map, List.map_map, List.map_map]
    refine congrArg KeyMap.ofList (List.map_congr_left fun e _ => ?_)
    simp only [Function.comp_apply, reread_config]
    rfl
  exact hmade.trans hdropped

/-- Introspecting a schema gives each property of a known type one column under its name, optional
and nullable, of the type that is declared, and no other columns; they agree with the schema. And
the schema of given columns, introspected and derived again, is the schema of the same columns
without the options they declare. -/
theorem introspection_settles (properties : Properties) (hs : properties.Sorted) :
    ((ofSchema properties).Sorted ∧
      (∀ name c, (ofSchema properties).get? name = some c →
        c.name = name ∧ declared? properties name = some c.type.key ∧ c.mayBeAbsent = true ∧
          c.acceptsNull = true ∧ c.fallback? = none) ∧
      (∀ name, (ofSchema properties).contains name = true ↔
        ∃ t : PropertyType, declared? properties name = some t.key) ∧
      (ofSchema properties).checkSchema properties = .ok ()) ∧
    ∀ columns : Columns,
      (ofSchema columns.schema).schema = columns.withoutOptions.schema := by
  refine ⟨⟨sorted_ofSchema hs, ?_, ?_, checkSchema_eq_ok.mpr (declared_ofSchema hs)⟩,
    schema_ofSchema_schema⟩
  · intro name c hc
    rw [get?_ofSchema hs] at hc
    obtain ⟨config, hget, hc⟩ := Option.bind_eq_some_iff.mp hc
    obtain ⟨t, ht, rfl⟩ := Column.ofConfig?_eq_some.mp hc
    refine ⟨rfl, ?_, rfl, rfl, rfl⟩
    rw [declared?, hget, Option.bind_some, ht, Column.type, Codec.type_ofConfig]
  · intro name
    rw [KeyMap.contains, get?_ofSchema hs, Option.isSome_iff_exists]
    simp only [Option.bind_eq_some_iff, Column.ofConfig?_eq_some, declared?]
    constructor
    · rintro ⟨_, config, hget, t, ht, -⟩
      exact ⟨t, config, hget, ht⟩
    · rintro ⟨t, config, hget, ht⟩
      exact ⟨_, config, hget, t, ht, rfl⟩

/-- A cost, and a total that is computed and has no codec. -/
def costs : Properties :=
  ⟨[("Cost", Codec.config (.number (some "dollar"))),
    ("Total", .ofFields [("type", .string "formula"), ("formula", .ofFields [])])]⟩

theorem introspection_settles_costs :
    (ofSchema costs).contains "Cost" = true ∧ (ofSchema costs).contains "Total" = false ∧
      (ofSchema costs).checkSchema costs = .ok () := by
  have hs : costs.Sorted := List.pairwise_pair.mpr (by decide)
  obtain ⟨⟨-, -, hcontains, hagrees⟩, -⟩ := introspection_settles costs hs
  refine ⟨(hcontains "Cost").mpr ⟨.number, rfl⟩, ?_, hagrees⟩
  rw [Bool.eq_false_iff]
  intro htotal
  obtain ⟨t, ht⟩ := (hcontains "Total").mp htotal
  have hformula : "formula" = t.key := Option.some.inj ht
  cases t <;> exact absurd hformula (by decide)

end Columns
end DocTables
