import DocTables.Proofs.Codec.Dates

/-!
What becomes of the end and the time zone in the map of a date. Texts are stored, and a part that is
missing or null is stored as null. So is a part of any other kind: it counts as missing.
-/
namespace DocTables

namespace DateSpan

/-- The parts of a date that a map may leave out. -/
def optionalParts : List String := ["end", "time_zone"]

/-- The map has nothing to say about a part. -/
def Vacant (fields : KeyMap Value) (part : String) : Prop :=
  ∀ v, fields.get? part = some v → v = .null

/-- The map has something for a part that is no text. -/
def Misfit (fields : KeyMap Value) (part : String) : Prop :=
  ∃ v, fields.get? part = some v ∧ v ≠ .null ∧ ∀ s, v ≠ .string s

variable {fields others : KeyMap Value} {part : String}

theorem field?_eq_none_iff :
    (Value.map fields).field? part = none ↔ Vacant fields part ∨ Misfit fields part := by
  have hfield : (Value.map fields).field? part = (fields.get? part).bind Value.string? := rfl
  unfold Vacant Misfit
  rw [hfield]
  cases fields.get? part with
  | none => simp
  | some v => cases v <;> simp [Value.string?]

/-- Only the texts in a map matter. -/
theorem ofValue_congr (h : ∀ part, (Value.map fields).field? part = (Value.map others).field? part) :
    ofValue (.map fields) = ofValue (.map others) := by
  have hread : ∀ part,
      (fields.get? part).bind Value.string? = (others.get? part).bind Value.string? := h
  simp only [ofValue, hread]

theorem field?_erase (hmisfit : Misfit fields part) (other : String) :
    (Value.map (fields.erase part)).field? other = (Value.map fields).field? other := by
  by_cases h : other = part
  · subst h
    rw [field?_eq_none_iff.mpr (.inr hmisfit), Value.field?, Value.get?, KeyMap.get?_erase,
      if_pos rfl, Option.bind_none]
  · rw [Value.field?, Value.get?, KeyMap.get?_erase, if_neg h]
    rfl

@[simp] theorem get?_toJson_end (d : DateSpan) :
    d.toJson.get? "end" = some (Json.ofString? d.finish) := by
  simp [toJson, KeyMap.lookup]

@[simp] theorem get?_toJson_zone (d : DateSpan) :
    d.toJson.get? "time_zone" = some (Json.ofString? d.zone) := by
  simp [toJson, KeyMap.lookup]

end DateSpan

namespace Codec
open DateSpan

/-- A misfit is taken for a part that is missing, whether the date is accepted or not. -/
theorem toWire_date_erase {fields : KeyMap Value} {part : String} (h : Misfit fields part) :
    date.toWire (.map fields) = date.toWire (.map (fields.erase part)) := by
  have hsame : ofValue (.map fields) = ofValue (.map (fields.erase part)) :=
    ofValue_congr fun other => (field?_erase h other).symm
  simp only [toWire, content, hsame]

/-- The texts in the map of a date are stored, the end without the blanks around it. A part is
stored as null if the map has nothing for it, but also if what it has is no text: the date is then
stored or refused as if that part were missing. -/
theorem date_parts_settle (fields : KeyMap Value) :
    (∀ w, date.toWire (.map fields) = .ok w → ∃ payload, w = property .date payload ∧
      (∀ s, fields.get? "end" = some (.string s) →
        payload.get? "end" = some (.string (Text.trim s))) ∧
      (∀ s, fields.get? "time_zone" = some (.string s) →
        payload.get? "time_zone" = some (.string s)) ∧
      ∀ part ∈ optionalParts,
        payload.get? part = some .null ↔ Vacant fields part ∨ Misfit fields part) ∧
    ∀ part, Misfit fields part →
      date.toWire (.map fields) = date.toWire (.map (fields.erase part)) := by
  refine ⟨fun w hw => ?_, fun part => toWire_date_erase⟩
  obtain ⟨start, -, -, -, rfl⟩ := toWire_date.mp hw
  have hnull (s : Option String) : some (Json.ofString? s) = some .null ↔ s = none := by
    cases s <;> simp [Json.ofString?, Json.ofOption]
  refine ⟨_, rfl, fun s hs => ?_, fun s hs => ?_, ?_⟩
  · rw [get?_toJson_end, Value.field?_map_eq_some.mpr hs]
    rfl
  · rw [get?_toJson_zone, Value.field?_map_eq_some.mpr hs]
    rfl
  · simp only [optionalParts, List.forall_mem_cons, get?_toJson_end, get?_toJson_zone, hnull,
      Option.map_eq_none_iff, field?_eq_none_iff, true_and]
    exact List.forall_mem_nil _

/-- A day in a time zone, with a number for its end. -/
def numberedEnd : KeyMap Value :=
  .ofList [("start", .string "2024-05-01"), ("end", .int 5), ("time_zone", .string "UTC")]

def storedDay : Json := DateSpan.toJson ⟨"2024-05-01", none, some "UTC"⟩

theorem toWire_numberedEnd : date.toWire (.map numberedEnd) = .ok (property .date storedDay) := rfl

theorem misfit_numberedEnd : Misfit numberedEnd "end" := ⟨.int 5, rfl, nofun, nofun⟩

theorem date_parts_settle_numberedEnd :
    date.toWire (.map numberedEnd) = .ok (property .date storedDay) ∧
    numberedEnd.get? "time_zone" = some (.string "UTC") ∧
    storedDay.get? "time_zone" = some (.string "UTC") ∧
    Misfit numberedEnd "end" ∧ storedDay.get? "end" = some .null ∧
    date.toWire (.map numberedEnd) = date.toWire (.map (numberedEnd.erase "end")) := by
  obtain ⟨hstored, herased⟩ := date_parts_settle numberedEnd
  obtain ⟨payload, hpayload, -, hzone, hnull⟩ := hstored _ toWire_numberedEnd
  obtain rfl : storedDay = payload := by
    simpa using congrArg (·.get? PropertyType.date.key) hpayload
  exact ⟨toWire_numberedEnd, rfl, hzone "UTC" rfl, misfit_numberedEnd,
    (hnull "end" List.mem_cons_self).mpr (.inr misfit_numberedEnd),
    herased "end" misfit_numberedEnd⟩

/-- Not every map that is stored as a date has texts, or nothing, for its parts, and what it has may
not be stored. -/
theorem not_forall_parts_kept :
    ¬ ∀ (fields : KeyMap Value) (payload : Json),
      date.toWire (.map fields) = .ok (property .date payload) → ∀ part ∈ optionalParts,
        ¬ Misfit fields part ∧ (payload.get? part = some .null → Vacant fields part) := by
  intro h
  exact (h _ _ toWire_numberedEnd "end" List.mem_cons_self).1 misfit_numberedEnd

end Codec
end DocTables
