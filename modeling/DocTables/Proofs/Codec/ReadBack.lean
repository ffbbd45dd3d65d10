import DocTables.Proofs.Codec.Accepted

/-! What is written into properties is read back: option names, ids, files, dates and segments. -/
namespace DocTables
open Outcome

@[simp] theorem Json.get?_ofFields (fields : List (String × Json)) (k : String) :
    (Json.ofFields fields).get? k = KeyMap.lookup k fields.reverse :=
  KeyMap.get?_ofList fields k

@[simp] theorem Json.field?_ofFields (fields : List (String × Json)) (k : String) :
    (Json.ofFields fields).field? k = (KeyMap.lookup k fields.reverse).bind Json.string? := by
  rw [Json.field?, Json.get?_ofFields]

@[simp] theorem Value.get?_ofFields (fields : List (String × Value)) (k : String) :
    (Value.ofFields fields).get? k = KeyMap.lookup k fields.reverse :=
  KeyMap.get?_ofList fields k

@[simp] theorem Value.field?_ofFields (fields : List (String × Value)) (k : String) :
    (Value.ofFields fields).field? k = (KeyMap.lookup k fields.reverse).bind Value.string? := by
  rw [Value.field?, Value.get?_ofFields]

@[simp] theorem Value.named?_ofFields (fields : List (String × Value)) (k : String) :
    (Value.ofFields fields).named? k = (KeyMap.lookup k fields.reverse).bind Value.string? :=
  Value.field?_ofFields fields k

@[simp] theorem Json.string?_string (s : String) : (Json.string s).string? = some s := rfl

@[simp] theorem Value.string?_string (s : String) : (Value.string s).string? = some s := rfl

@[simp] theorem Json.string?_ofString? (s : Option String) : (Json.ofString? s).string? = s := by
  cases s <;> rfl

@[simp] theorem Value.string?_ofString? (s : Option String) : (Value.ofString? s).string? = s := by
  cases s <;> rfl

/-- A text is one that trimming leaves as it is, and not empty. -/
def IsName (s : String) : Prop := Text.trim s = s ∧ s ≠ ""

theorem isName_trim {s : String} (h : Text.trim s ≠ "") : IsName (Text.trim s) :=
  ⟨Text.trim_trim s, h⟩

namespace RichText

@[simp] theorem segmentText?_segment (s : String) : segmentText? (segment s) = some s := by
  simp [segmentText?, segment, KeyMap.lookup]

theorem joined_segments (s : String) : joined (segments s) = s :=
  join_segments segmentText?_segment s

end RichText

namespace Choice

@[simp] theorem field?_toJson (name : String) : (toJson name).field? "name" = some name := by
  simp [toJson, KeyMap.lookup]

theorem read_string {options : Option (List String)} {s : String} (hn : IsName s)
    (ha : Allowed options s) : read options (.string s) = .ok s :=
  read_eq_ok.mpr ⟨s, rfl, hn.1.symm, hn.2, ha⟩

end Choice

namespace Person

@[simp] theorem field?_toJson (id : String) : (toJson id).field? "id" = some id := by
  simp [toJson, KeyMap.lookup]

theorem read_string {id : String} (h : IsName id) : read (.string id) = .ok id :=
  readName_string h.1 h.2

end Person

namespace RecordLink

@[simp] theorem field?_toJson (id : String) : (toJson id).field? "id" = some id := by
  simp [toJson, KeyMap.lookup]

theorem read_toValue {id : String} (h : IsName id) : read (toValue id) = .ok id := by
  refine readName_eq_ok.mpr ⟨id, ?_, h.1.symm, h.2⟩
  simp [toValue, KeyMap.lookup]

end RecordLink

namespace FileLink

@[simp] theorem field?_toJson (f : FileLink) : f.toJson.field? "name" = some f.name := by
  simp [toJson, KeyMap.lookup]

@[simp] theorem ofJson?_toJson (f : FileLink) : ofJson? f.toJson = some f := by
  simp [ofJson?, toJson, KeyMap.lookup, ofUrl]

theorem read_toValue {f : FileLink} (h : IsName f.url) : read f.toValue = .ok f := by
  refine read_eq_ok.mpr ⟨f.url, ?_, ?_, ?_⟩
  · simp [toValue, KeyMap.lookup]
  · rw [h.1]
    exact h.2
  · simp [toValue, KeyMap.lookup, ofUrl, h.1]

end FileLink

namespace DateSpan

@[simp] theorem ofJson?_toJson (d : DateSpan) : ofJson? d.toJson = some d := by
  simp [ofJson?, toJson, KeyMap.lookup]

@[simp] theorem named?_toValue (d : DateSpan) : d.toValue.named? "start" = some d.start := by
  unfold toValue
  split <;> simp [KeyMap.lookup]

theorem isNull_toJson (d : DateSpan) : d.toJson.isNull = false := rfl

/-- Start and end are trimmed. -/
def Trimmed (d : DateSpan) : Prop :=
  Text.trim d.start = d.start ∧ d.finish.map Text.trim = d.finish

theorem ofValue_toValue {d : DateSpan} (hv : d.Valid) (ht : d.Trimmed) :
    ofValue d.toValue = .ok d := by
  refine ofValue_eq_ok.mpr ⟨d.start, d.named?_toValue, hv, ?_⟩
  · obtain ⟨start, finish, zone⟩ := d
    obtain ⟨hs, hf⟩ := ht
    unfold toValue
    split
    next h =>
      obtain ⟨rfl, rfl⟩ : finish = none ∧ zone = none := by simpa using h
      simp [Value.field?, Value.get?, hs]
    next => simp [KeyMap.lookup, hs, hf]

end DateSpan

namespace Codec

@[simp] theorem get?_property (t : PropertyType) (j : Json) :
    (property t j).get? t.key = some j := by
  simp [property, KeyMap.lookup]

@[simp] theorem wireItems_property (t : PropertyType) (items : List Json) :
    wireItems t (property t (.array items)) = items := by
  simp [wireItems, Json.items]

theorem payload?_property (t : PropertyType) {j : Json} (h : j.isNull = false) :
    (property t j).payload? t.key = some j := by
  simp [Json.payload?, h]

end Codec
end DocTables
