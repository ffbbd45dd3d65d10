import DocTables.Column.Row
import DocTables.Column.Schema
import DocTables.Proofs.Store.Written

/-!
Rows and schemas column by column: the payloads that a row is lowered to, the values that a record
is read back into, and the types that schemas declare.
-/
namespace DocTables
open Outcome

theorem Value.isNull_iff {v : Value} : v.isNull = true ↔ v = .null := by
  cases v <;> simp [isNull]

namespace Columns
variable {columns : Columns} {row : Row} {properties : Properties} {key : String} {c : Column}

theorem payload_eq_ok {v : Value} {j : Json} (h : payload key c v = .ok j) :
    c.isMaintained = false ∧
      (v = .null ∧ c.acceptsNull = true ∧ j = c.codec.empty ∨
        v ≠ .null ∧ c.codec.toWire v = .ok j) := by
  unfold payload at h
  split at h
  · simp at h
  next hmaintained =>
    refine ⟨by simpa using hmaintained, ?_⟩
    split at h
    next hnull =>
      split at h
      next haccepts => exact .inl ⟨Value.isNull_iff.mp hnull, haccepts, (Except.ok.inj h).symm⟩
      next => simp at h
    next hnull => exact .inr ⟨fun he => hnull (Value.isNull_iff.mpr he), mapError_eq_ok.mp h⟩

theorem written_payload {v : Value} {j : Json} (h : payload key c v = .ok j) :
    Written c.type (Stamp.tagged j) := by
  obtain ⟨-, ⟨-, -, rfl⟩ | ⟨-, hw⟩⟩ := payload_eq_ok h
  · exact .cleared rfl
  · exact .stored rfl hw

/-- The tag of a payload does not matter for decoding. -/
theorem ofWire_payload {v : Value} {j : Json} (h : payload key c v = .ok j) :
    c.codec.ofWire (Stamp.tagged j) = c.codec.ofWire j := by
  have hproperty : ∃ content, j = Codec.property c.codec.type content := by
    obtain ⟨-, ⟨-, -, rfl⟩ | ⟨-, hw⟩⟩ := payload_eq_ok h
    · exact ⟨_, rfl⟩
    · obtain ⟨content, -, rfl⟩ := map_eq_ok.mp hw
      exact ⟨content, rfl⟩
  obtain ⟨content, rfl⟩ := hproperty
  apply Codec.ofWire_congr
  rw [Stamp.get?_tagged_property, Codec.get?_property]

theorem inserted_eq_ok {i : Option Value} (h : inserted key c row = .ok i) :
    c.isMaintained = true ∧ row.get? key = none ∧ i = none ∨
      i = (row.get? key).or c.fallback? ∧ (i = none → c.isMaintained = false) := by
  unfold inserted at h
  split at h
  next v hrow =>
    obtain rfl := Except.ok.inj h
    exact .inr ⟨by rw [hrow, Option.some_or], nofun⟩
  next hrow =>
    split at h
    next hmaintained =>
      obtain rfl := Except.ok.inj h
      exact .inl ⟨hmaintained, hrow, rfl⟩
    next hmaintained =>
      have hfalse : c.isMaintained = false := by simpa using hmaintained
      rw [hrow, Option.none_or]
      split at h
      next v hfallback =>
        obtain rfl := Except.ok.inj h
        exact .inr ⟨hfallback.symm, fun _ => hfalse⟩
      next hfallback =>
        split at h
        next =>
          obtain rfl := Except.ok.inj h
          exact .inr ⟨hfallback.symm, fun _ => hfalse⟩
        next => simp at h

/-- A column gets a value, or is left out: a maintained one always, another one when it is neither
supplied nor has a default. -/
theorem insertField_eq_ok {o : Option (String × Json)} (h : insertField row (key, c) = .ok o) :
    c.isMaintained = true ∧ row.get? key = none ∧ o = none ∨
      c.isMaintained = false ∧ ((row.get? key).or c.fallback? = none ∧ o = none ∨
        ∃ v j, (row.get? key).or c.fallback? = some v ∧ payload key c v = .ok j ∧
          o = some (c.name, j)) := by
  obtain ⟨i, hi, h⟩ := bind_eq_ok.mp h
  rcases inserted_eq_ok hi with ⟨hmaintained, hrow, rfl⟩ | ⟨hvalue, hwritable⟩
  · exact .inl ⟨hmaintained, hrow, (Except.ok.inj h).symm⟩
  · cases i with
    | none => exact .inr ⟨hwritable rfl, .inl ⟨hvalue.symm, (Except.ok.inj h).symm⟩⟩
    | some v =>
      obtain ⟨j, hj, h⟩ := bind_eq_ok.mp h
      exact .inr ⟨(payload_eq_ok hj).1, .inr ⟨v, j, hvalue.symm, hj, (Except.ok.inj h).symm⟩⟩

theorem insertProperties_eq_ok (h : columns.insertProperties row = .ok properties) :
    ∃ os, List.Forall₂ (fun e o => insertField row e = .ok o) columns.entries os ∧
      properties = .ofList (os.filterMap id) := by
  obtain ⟨_, -, h⟩ := bind_eq_ok.mp h
  obtain ⟨os, hos, h⟩ := bind_eq_ok.mp h
  exact ⟨os, mapM_eq_ok.mp hos, (Except.ok.inj h).symm⟩

theorem updateProperties_eq_ok (h : columns.updateProperties row = .ok properties) :
    ∃ es, List.Forall₂ (fun e p => updateField columns e = .ok p) row.entries es ∧
      properties = .ofList es := by
  obtain ⟨_, -, h⟩ := bind_eq_ok.mp h
  obtain ⟨es, hes, h⟩ := bind_eq_ok.mp h
  split at h
  · simp at h
  · exact ⟨es, mapM_eq_ok.mp hes, (Except.ok.inj h).symm⟩

/-- Properties that stand for columns, with payloads of their types. -/
def Lowered (columns : Columns) (properties : Properties) : Prop :=
  ∀ p ∈ properties.entries, ∃ e ∈ columns.entries, e.2.name = p.1 ∧
    Written e.2.type (Stamp.tagged p.2)

theorem lowered_insertProperties (h : columns.insertProperties row = .ok properties) :
    columns.Lowered properties := by
  obtain ⟨os, hos, rfl⟩ := insertProperties_eq_ok h
  intro p hp
  have hmem : some p ∈ os := by simpa using KeyMap.mem_ofList hp
  obtain ⟨⟨key, c⟩, he, hfield⟩ := (exists_mem_of_forall₂ hos).2 (some p) hmem
  rcases insertField_eq_ok hfield with ⟨-, -, hnone⟩ | ⟨-, ⟨-, hnone⟩ | ⟨v, j, -, hj, heq⟩⟩
  · simp at hnone
  · simp at hnone
  · obtain rfl := Option.some.inj heq
    exact ⟨(key, c), he, rfl, written_payload hj⟩

theorem get?_of_column? (h : columns.column? key = .ok c) : columns.get? key = some c := by
  unfold column? at h
  split at h
  next hget =>
    obtain rfl := Except.ok.inj h
    exact hget
  next => simp at h

/-- A value of a patch becomes the payload of its column. -/
theorem updateField_eq_ok {e : String × Value} {p : String × Json}
    (h : updateField columns e = .ok p) :
    ∃ c, columns.get? e.1 = some c ∧ p.1 = c.name ∧ payload e.1 c e.2 = .ok p.2 := by
  obtain ⟨c, hc, h⟩ := bind_eq_ok.mp h
  obtain ⟨j, hj, h⟩ := bind_eq_ok.mp h
  obtain rfl := Except.ok.inj h
  exact ⟨c, get?_of_column? hc, rfl, hj⟩

theorem lowered_updateProperties (h : columns.updateProperties row = .ok properties) :
    columns.Lowered properties := by
  obtain ⟨es, hes, rfl⟩ := updateProperties_eq_ok h
  intro p hp
  obtain ⟨e, -, hfield⟩ := (exists_mem_of_forall₂ hes).2 p (KeyMap.mem_ofList hp)
  obtain ⟨c, hc, hname, hj⟩ := updateField_eq_ok hfield
  exact ⟨(e.1, c), KeyMap.mem_of_get? hc, hname.symm, written_payload hj⟩

theorem sorted_updateProperties (h : columns.updateProperties row = .ok properties) :
    properties.Sorted := by
  obtain ⟨es, -, rfl⟩ := updateProperties_eq_ok h
  exact KeyMap.sorted_ofList es

theorem fst_of_insertField {e : String × Column} {r : String × Json}
    (h : insertField row e = .ok (some r)) : r.1 = e.2.name := by
  obtain ⟨key, c⟩ := e
  rcases insertField_eq_ok h with ⟨-, -, hnone⟩ | ⟨-, ⟨-, hnone⟩ | ⟨v, j, -, -, heq⟩⟩
  · simp at hnone
  · simp at hnone
  · rw [Option.some.inj heq]

theorem nodup_names (hnames : columns.NamesDistinct) :
    (columns.entries.map fun e => e.2.name).Nodup := by
  simpa [NamesDistinct, KeyMap.values, Function.comp_def] using hnames

/-- With distinct names, a property of a new record is the payload of its column. -/
theorem get?_insertProperties (h : columns.insertProperties row = .ok properties)
    (hnames : columns.NamesDistinct) {e : String × Column} (he : e ∈ columns.entries) :
    ∃ o, insertField row e = .ok o ∧ properties.get? e.2.name = o.map Prod.snd := by
  obtain ⟨os, hos, rfl⟩ := insertProperties_eq_ok h
  have hn := nodup_names hnames
  have hname : ∀ (e : String × Column) r, insertField row e = .ok (some r) → r.1 = e.2.name :=
    fun _ _ hr => fst_of_insertField hr
  obtain ⟨o, ho, hlookup⟩ := KeyMap.lookup_of_forall₂ hname hos hn he
  refine ⟨o, ho, ?_⟩
  rw [KeyMap.get?_ofList, KeyMap.lookup_reverse (hn.sublist (KeyMap.keys_of_forall₂ hname hos))]
  exact hlookup

theorem fst_of_decodeField {e : String × Column} {r : String × Value}
    (h : decodeField properties e = .ok (some r)) : r.1 = e.1 := by
  unfold decodeField at h
  split at h
  next =>
    obtain ⟨v, -, heq⟩ := map_eq_ok.mp h
    rw [← Option.some.inj heq]
  next =>
    split at h
    next => rw [← Option.some.inj (Except.ok.inj h)]
    next =>
      have heq := Except.ok.inj h
      split at heq
      next => rw [← Option.some.inj heq]
      next => simp at heq

theorem decodeField_of_some {p : Json} (hget : properties.get? c.name = some p)
    {o : Option (String × Value)} (h : decodeField properties (key, c) = .ok o) :
    ∃ v, c.codec.ofWire p = .ok v ∧ o = some (key, v) := by
  simp only [decodeField, hget] at h
  obtain ⟨v, hv, rfl⟩ := map_eq_ok.mp h
  exact ⟨v, mapError_eq_ok.mp hv, rfl⟩

theorem decodeField_of_none (hget : properties.get? c.name = none) (hf : c.fallback? = none)
    {o : Option (String × Value)} (h : decodeField properties (key, c) = .ok o) :
    o = if c.acceptsNull then some (key, .null) else none := by
  simp only [decodeField, hget, hf] at h
  exact (Except.ok.inj h).symm

theorem decode_eq_ok {record : Record} {e : DecodedRecord} (h : columns.decode record = .ok e) :
    e.record = record ∧ columns.readRow record.properties = .ok e.row := by
  obtain ⟨row, hrow, h⟩ := bind_eq_ok.mp h
  obtain rfl := Except.ok.inj h
  exact ⟨rfl, hrow⟩

/-- A record whose properties have the types of the columns is decoded. -/
theorem decode_total {record : Record}
    (h : ∀ e ∈ columns.entries, ∀ p, record.properties.get? e.2.name = some p →
      Written e.2.type p) : ∃ d, columns.decode record = .ok d := by
  have hfields : ∀ e ∈ columns.entries, ∃ o, decodeField record.properties e = .ok o := by
    intro e he
    unfold decodeField
    split
    next p hp =>
      obtain ⟨v, hv⟩ := (h e he p hp).ofWire_eq_ok
      exact ⟨some (e.1, v), by rw [hv]; rfl⟩
    next =>
      split
      · exact ⟨_, rfl⟩
      · exact ⟨_, rfl⟩
  obtain ⟨os, hos⟩ := mapM_total hfields
  refine ⟨⟨⟨os.filterMap id⟩, record⟩, ?_⟩
  unfold decode readRow
  rw [hos]
  rfl

/-- What is read back under a key is the value of its column. -/
theorem get?_readRow (h : columns.readRow properties = .ok row) (hs : columns.Sorted)
    (hc : columns.get? key = some c) :
    ∃ o, decodeField properties (key, c) = .ok o ∧ row.get? key = o.map Prod.snd := by
  obtain ⟨os, hos, h⟩ := bind_eq_ok.mp h
  obtain rfl := Except.ok.inj h
  have hname : ∀ (e : String × Column) r, decodeField properties e = .ok (some r) → r.1 = e.1 :=
    fun _ _ hr => fst_of_decodeField hr
  exact KeyMap.lookup_of_forall₂ hname (mapM_eq_ok.mp hos) hs.nodup (KeyMap.mem_of_get? hc)

/-- Nothing is read back under other keys. -/
theorem get?_readRow_eq_none (h : columns.readRow properties = .ok row)
    (hc : columns.get? key = none) : row.get? key = none := by
  obtain ⟨os, hos, h⟩ := bind_eq_ok.mp h
  obtain rfl := Except.ok.inj h
  have hname : ∀ (e : String × Column) r, decodeField properties e = .ok (some r) → r.1 = e.1 :=
    fun _ _ hr => fst_of_decodeField hr
  have hkeys := KeyMap.keys_of_forall₂ hname (mapM_eq_ok.mp hos)
  exact KeyMap.lookup_eq_none.mpr fun hmem => KeyMap.lookup_eq_none.mp hc (hkeys.subset hmem)

end Columns
end DocTables
