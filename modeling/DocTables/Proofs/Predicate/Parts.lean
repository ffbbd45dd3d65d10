import DocTables.Proofs.Predicate.Found
import DocTables.Proofs.Text.LowerCase

/-!
Filters for a part of a text. They compare lower cases, and the lower case of a part is a part of
the lower case of the text unless a sigma has another form in it.
-/
namespace DocTables
open Outcome

theorem Comparison.holds_contains {t : PropertyType} (ht : t = .title ∨ t = .richText)
    (text part : String) : Comparison.contains.Holds t (some (.string text)) (.string part) ↔
      Text.lowerChars part.toList <:+: Text.lowerChars text.toList := by
  rcases ht with rfl | rfl <;>
    simp [Holds, Value.operandScalar?, Value.Contains]

namespace Predicate

/-- A filter for a part of a title or text always compiles, and on a record that holds the text it
compares their lower cases. -/
theorem part_filter {c : Column} (hc : c.codec = .title ∨ c.codec = .richText) {v : Value}
    {w : Json} {text : String} (h : c.codec.toWire v = .ok w)
    (hread : c.codec.ofWire w = .ok (.string text)) (part : String) :
    ∃ filter, (compare .contains c.ref (.string part)).toFilter = .ok filter ∧
      ∀ (properties : Properties) (p : Json), properties.get? c.name = some p →
        p = w ∨ p = Stamp.tagged w →
        ∃ found, (Filter.ofJson filter).holds properties = .ok found ∧
          (found = true ↔ Text.lowerChars part.toList <:+: Text.lowerChars text.toList) := by
  obtain ⟨j, hj, rfl⟩ := map_eq_ok.mp h
  have hcanonical : c.codec.canonical v = .string text :=
    Except.ok.inj ((Codec.ofWire_property hj).symm.trans hread)
  have htype : c.type = .title ∨ c.type = .richText := by
    unfold Column.type
    rcases hc with hc | hc
    · exact .inl (by rw [hc]; rfl)
    · exact .inr (by rw [hc]; rfl)
  have hsupports : Comparison.contains.supports c.type = true := by
    rcases htype with ht | ht <;> rw [ht] <;> rfl
  have hoperand : c.ref.operand (.string part) = .ok (.string part) := by
    have href : c.ref.type = c.type := rfl
    unfold PropertyRef.operand
    rw [href]
    rcases htype with ht | ht <;> rw [ht] <;> rfl
  refine ⟨_, toFilter_compare hsupports hoperand, fun properties p hget hp => ?_⟩
  obtain ⟨found, hfound, hiff⟩ :=
    filter_of_content hj hsupports hoperand hget (get?_of_stored hp)
  rw [hcanonical, Comparison.holds_contains htype] at hiff
  exact ⟨found, hfound, hiff⟩

/-- The filter finds the record just when the lower case of the part is in that of the text. This is
so wherever the part stands in the text with all its sigmas in the forms that they have in the part
alone, and wherever it stands at all if their forms are settled in the part. -/
theorem contains_settles {c : Column} (hc : c.codec = .title ∨ c.codec = .richText) {v : Value}
    {w : Json} {text : String} (h : c.codec.toWire v = .ok w)
    (hread : c.codec.ofWire w = .ok (.string text)) (part : String) :
    ∃ filter, (compare .contains c.ref (.string part)).toFilter = .ok filter ∧
      ∀ (properties : Properties) (p : Json), properties.get? c.name = some p →
        p = w ∨ p = Stamp.tagged w →
        ∃ found, (Filter.ofJson filter).holds properties = .ok found ∧
          (found = true ↔ Text.lowerChars part.toList <:+: Text.lowerChars text.toList) ∧
          (∀ before after, text.toList = before ++ part.toList ++ after →
            Text.SameSigmas before.reverse [] part.toList after [] → found = true) ∧
          (part.toList <:+: text.toList → Text.Settled part.toList → found = true) := by
  obtain ⟨filter, hfilter, hholds⟩ := part_filter hc h hread part
  refine ⟨filter, hfilter, fun properties p hget hp => ?_⟩
  obtain ⟨found, hfound, hiff⟩ := hholds properties p hget hp
  have hplaced : ∀ before after, text.toList = before ++ part.toList ++ after →
      Text.SameSigmas before.reverse [] part.toList after [] → found = true := by
    intro before after htext hsame
    have hinfix := Text.lowerWithin_infix before part.toList after
    rw [Text.lowerWithin_eq_iff.mpr hsame, ← htext] at hinfix
    exact hiff.mpr hinfix
  refine ⟨found, hfound, hiff, hplaced, ?_⟩
  rintro ⟨before, after, htext⟩ hsettled
  exact hplaced before after htext.symm (Text.settled_iff.mp hsettled _ _)

/-- The name of a street. -/
def nameColumn : Column := .ofType .title "Name"

/-- The segment of a short name. -/
def named (s : String) : Json := Codec.property .title (.array [RichText.segment s])

/-- The sigma of the part is final by itself and before a blank. -/
theorem contains_settles_street :
    ∃ filter, (compare .contains nameColumn.ref (.string "ΟΔΟΣ")).toFilter = .ok filter ∧
      (Filter.ofJson filter).holds ⟨[("Name", named "ΟΔΟΣ ΕΡΜΟΥ")]⟩ = .ok true := by
  have hstored : nameColumn.codec.toWire (.string "ΟΔΟΣ ΕΡΜΟΥ") = .ok (named "ΟΔΟΣ ΕΡΜΟΥ") := rfl
  obtain ⟨filter, hfilter, hfinds⟩ := contains_settles (.inl rfl) hstored rfl "ΟΔΟΣ"
  obtain ⟨found, hfound, -, hplaced, -⟩ :=
    hfinds ⟨[("Name", named "ΟΔΟΣ ΕΡΜΟΥ")]⟩ _ rfl (.inl rfl)
  obtain rfl : found = true := by
    refine hplaced [] " ΕΡΜΟΥ".toList (by decide) (Text.lowerWithin_eq_iff.mp ?_)
    decide +kernel
  exact ⟨filter, hfilter, hfound⟩

/-- A sigma that is final by itself but not in the text hides the record. -/
theorem not_forall_part_found :
    ¬ ∀ (c : Column) (v : Value) (w : Json) (text part : String),
      c.codec = .title ∨ c.codec = .richText → c.codec.toWire v = .ok w →
      c.codec.ofWire w = .ok (.string text) → part.toList <:+: text.toList →
      ∃ filter, (compare .contains c.ref (.string part)).toFilter = .ok filter ∧
        ∀ properties : Properties, properties.get? c.name = some w →
          (Filter.ofJson filter).holds properties = .ok true := by
  intro hall
  have hstored : nameColumn.codec.toWire (.string "ΑΣΑ") = .ok (named "ΑΣΑ") := rfl
  have hpart : "ΑΣ".toList <:+: "ΑΣΑ".toList := ⟨[], ['Α'], by decide⟩
  obtain ⟨filter, hfilter, hholds⟩ := hall nameColumn _ _ _ "ΑΣ" (.inl rfl) hstored rfl hpart
  obtain ⟨same, hsame, hdecides⟩ := part_filter (.inl rfl) hstored rfl "ΑΣ"
  obtain rfl := Except.ok.inj (hfilter.symm.trans hsame)
  obtain ⟨found, hfound, hiff⟩ := hdecides ⟨[("Name", named "ΑΣΑ")]⟩ _ rfl (.inl rfl)
  obtain rfl := Except.ok.inj (hfound.symm.trans (hholds ⟨[("Name", named "ΑΣΑ")]⟩ rfl))
  have hmissed : ¬ Text.lowerChars "ΑΣ".toList <:+: Text.lowerChars "ΑΣΑ".toList := by
    decide +kernel
  exact hmissed (hiff.mp rfl)

end Predicate
end DocTables
