import DocTables.Proofs.Codec.Kinds
import DocTables.Proofs.Store.Written

/-!
Texts and lists in any document, read twice: what filters see of a property against what it is
decoded to. Options, users and links are read alike. The text of a segment whose plain text is null
is decoded and not seen, and so is a file without a name.
-/
namespace DocTables

namespace RichText
variable {j : Json} {s : String}

/-- A segment whose content is read because its plain text is no text, but which filters take to
be without text for that. -/
def Overlooked (j : Json) (s : String) : Prop :=
  ∃ plain, j.get? "plain_text" = some plain ∧ plain.string? = none ∧
    (j.get? "text").bind (·.field? "content") = some s

/-- Filters see the text that is read, but for segments that they overlook. -/
theorem segmentText?_cases (j : Json) :
    Facet.shownText? j = segmentText? j ∨
      Facet.shownText? j = none ∧ ∃ s, segmentText? j = some s ∧ Overlooked j s := by
  unfold Facet.shownText? segmentText? Overlooked Json.field?
  cases hp : j.get? "plain_text" with
  | none =>
    left
    cases j.get? "text" <;> simp
  | some plain =>
    cases hs : plain.string? with
    | some s => simp [hs]
    | none =>
      cases hc : (j.get? "text").bind fun t => (t.get? "content").bind Json.string? with
      | none => simp [hs]
      | some s => simp [hs]

theorem Overlooked.reads (h : Overlooked j s) :
    Facet.shownText? j = none ∧ segmentText? j = some s := by
  obtain ⟨plain, hplain, hs, hcontent⟩ := h
  unfold Facet.shownText? segmentText?
  rw [Json.field?, hplain, hcontent]
  simp [hs]

/-- The text of segments under a reader. -/
def readAs (read : Json → Option String) (segments : List Json) : String :=
  String.join (segments.filterMap read)

theorem readAs_cons (read : Json → Option String) (j : Json) (js : List Json) :
    readAs read (j :: js) = (read j).getD "" ++ readAs read js := by
  unfold readAs
  cases h : read j <;> simp [h]

theorem length_shown_le (segments : List Json) :
    (readAs Facet.shownText? segments).length ≤ (readAs segmentText? segments).length := by
  induction segments with
  | nil => exact le_rfl
  | cons j js ih =>
    rw [readAs_cons, readAs_cons, String.length_append, String.length_append]
    rcases segmentText?_cases j with h | ⟨h, -⟩
    · rw [h]
      omega
    · rw [h, Option.getD_none, String.length_empty]
      omega

/-- Filters see the text that is read just if they overlook nothing of it. -/
theorem shown_eq {segments : List Json} :
    readAs Facet.shownText? segments = readAs segmentText? segments ↔
      ∀ j ∈ segments, ∀ s, Overlooked j s → s = "" := by
  induction segments with
  | nil => simp [readAs]
  | cons j js ih =>
    rw [readAs_cons, readAs_cons, List.forall_mem_cons, ← ih]
    rcases segmentText?_cases j with h | ⟨hnone, s, hs, hover⟩
    · have hnothing : ∀ s, Overlooked j s → s = "" := fun s hs => by
        obtain ⟨hnone, hsome⟩ := hs.reads
        rw [← h, hnone] at hsome
        exact nomatch hsome
      rw [h, String.append_right_inj]
      exact ⟨fun heq => ⟨hnothing, heq⟩, fun heq => heq.2⟩
    · rw [hnone, hs, Option.getD_none, Option.getD_some, String.empty_append]
      constructor
      · intro heq
        have hlength := length_shown_le js
        rw [heq, String.length_append] at hlength
        have hempty : s = "" := String.length_eq_zero_iff.mp (by omega)
        refine ⟨fun t ht => ?_, by rwa [hempty, String.empty_append] at heq⟩
        rw [← Option.some.inj (hs.symm.trans ht.reads.2)]
        exact hempty
      · rintro ⟨hempty, heq⟩
        rw [hempty s hover, heq, String.empty_append]

end RichText

namespace FileLink

/-- The entry has a name just if it has an address. -/
def Matched (j : Json) : Prop := (j.field? "name").isSome = (ofJson? j).isSome

theorem name_of_ofJson? {j : Json} {f : FileLink} (h : ofJson? j = some f) :
    f.name = (j.field? "name").getD (nameOfUrl f.url) := by
  obtain ⟨url, -, rfl⟩ := Option.map_eq_some_iff.mp h
  rfl

theorem names_of_matched {items : List Json} (h : ∀ j ∈ items, Matched j) :
    items.filterMap (·.field? "name") = (items.filterMap ofJson?).map FileLink.name := by
  rw [List.map_filterMap]
  refine List.filterMap_congr fun j hj => ?_
  have hmatched := h j hj
  unfold Matched at hmatched
  cases hname : j.field? "name" with
  | none =>
    rw [hname, Option.isSome_none, eq_comm, Option.isSome_eq_false_iff, Option.isNone_iff_eq_none]
      at hmatched
    rw [hmatched]
    rfl
  | some name =>
    rw [hname, Option.isSome_some, eq_comm, Option.isSome_iff_exists] at hmatched
    obtain ⟨f, hf⟩ := hmatched
    rw [hf, Option.map_some, name_of_ofJson? hf, hname]
    rfl

end FileLink

namespace Codec
variable {t : PropertyType} {w : Json} {v : Value}

theorem items_payload? (t : PropertyType) (w : Json) :
    (w.payload? t.key).elim [] Json.items = wireItems t w := by
  unfold wireItems Json.payload?
  cases w.get? t.key with
  | none => rfl
  | some j => cases j <;> rfl

theorem ofProperty_key (t : PropertyType) (w : Json) :
    Facet.ofProperty t.key w = Facet.ofPayload (some t) (w.payload? t.key) := by
  rw [Facet.ofProperty, PropertyType.ofKey?_key]

theorem names_payload? (field : String) (t : PropertyType) (w : Json) :
    Facet.names field (w.payload? t.key) = .list ((wireItems t w).filterMap (·.field? field)) := by
  rw [Facet.names, items_payload?]

/-- A text is decoded to what its segments read as, and filters see what they show. -/
theorem text_of_ofWire (ht : t = .title ∨ t = .richText) (h : (ofType t).ofWire w = .ok v) :
    v = .string (RichText.readAs RichText.segmentText? (wireItems t w)) ∧
      Facet.ofProperty t.key w = .text (RichText.readAs Facet.shownText? (wireItems t w)) := by
  rw [ofProperty_key, ← items_payload?]
  rcases ht with rfl | rfl
  · obtain ⟨segments, hw, hv⟩ | ⟨-, he⟩ := ofWire_title w
    · refine ⟨?_, rfl⟩
      rw [Except.ok.inj (h.symm.trans hv), items_payload?]
      simp [wireItems, PropertyType.key, hw, Json.items, RichText.joined, RichText.readAs]
    · exact absurd (h.symm.trans he) (by simp)
  · refine ⟨?_, rfl⟩
    rw [items_payload?]
    exact (Except.ok.inj h).symm

theorem decodes_text (ht : t = .title ∨ t = .richText) (h : (ofType t).ofWire w = .ok v) :
    Decodes t w v ↔ ∀ j ∈ wireItems t w, ∀ s, RichText.Overlooked j s → s = "" := by
  rw [← RichText.shown_eq]
  obtain ⟨hv, hfacet⟩ := text_of_ofWire ht h
  have hvalue (s : String) : Facet.ofValue t (.string s) = .text s := by
    rcases ht with rfl | rfl <;> rfl
  constructor
  · intro hdecodes
    have heq := hdecodes.facet
    rwa [hfacet, hv, hvalue, Facet.text.injEq] at heq
  · intro heq
    refine ⟨h, ?_, fun _ => ?_⟩
    · rw [hfacet, hv, hvalue, heq]
    · rw [hv, hvalue, Facet.isEmpty_text, Value.isEmpty_string]

/-- A list of names or ids is decoded to what filters see. -/
theorem list_of_ofWire (ht : t = .multiSelect ∨ t = .people ∨ t = .relation)
    (h : (ofType t).ofWire w = .ok v) :
    ∃ ss, Facet.ofProperty t.key w = .list ss ∧ Facet.ofValue t v = .list ss ∧
      (v.IsEmpty ↔ ss = []) := by
  rw [ofProperty_key]
  rcases ht with rfl | rfl | rfl
  · obtain rfl := Except.ok.inj h
    exact ⟨_, names_payload? "name" .multiSelect w, Facet.ofValue_strings (.inl rfl) _,
      by simp [Value.strings]⟩
  · obtain rfl := Except.ok.inj h
    exact ⟨_, names_payload? "id" .people w, Facet.ofValue_strings (.inr rfl) _,
      by simp [Value.strings]⟩
  · obtain rfl := Except.ok.inj h
    exact ⟨_, names_payload? "id" .relation w, Facet.ofValue_links _, by simp⟩

theorem decodes_list (ht : t = .multiSelect ∨ t = .people ∨ t = .relation)
    (h : (ofType t).ofWire w = .ok v) : Decodes t w v := by
  obtain ⟨ss, hfacet, hvalue, hempty⟩ := list_of_ofWire ht h
  refine ⟨h, hfacet.trans hvalue.symm, fun _ => ?_⟩
  rw [hvalue, Facet.isEmpty_list, hempty]

theorem files_of_ofWire (h : (ofType .files).ofWire w = .ok v) :
    v = .array (((wireItems .files w).filterMap FileLink.ofJson?).map FileLink.toValue) ∧
      Facet.ofValue .files v =
        .list (((wireItems .files w).filterMap FileLink.ofJson?).map FileLink.name) ∧
      Facet.ofProperty PropertyType.files.key w =
        .list ((wireItems .files w).filterMap (·.field? "name")) := by
  obtain rfl := Except.ok.inj h
  rw [ofProperty_key]
  exact ⟨rfl, Facet.ofValue_files _, names_payload? "name" .files w⟩

theorem decodes_files (h : (ofType .files).ofWire w = .ok v)
    (hmatched : ∀ j ∈ wireItems .files w, FileLink.Matched j) : Decodes .files w v := by
  obtain ⟨hv, hvalue, hfacet⟩ := files_of_ofWire h
  refine ⟨h, ?_, fun _ => ?_⟩
  · rw [hfacet, hvalue, FileLink.names_of_matched hmatched]
  · rw [hvalue, hv]
    simp

/-- Filters see options, users and links as they are decoded, a text just if they overlook nothing
of it, and files if the entries with names are those with addresses. They see no files where no
entry has a name; none are decoded where no entry has an address. -/
theorem decodes_settles {c : Codec} (h : c.ofWire w = .ok v) :
    (c.type ∈ [.multiSelect, .people, .relation] → Decodes c.type w v) ∧
      (c.type ∈ [.title, .richText] → (Decodes c.type w v ↔
        ∀ j ∈ wireItems c.type w, ∀ s, RichText.Overlooked j s → s = "")) ∧
      (c.type = .files → (∀ j ∈ wireItems c.type w, FileLink.Matched j) → Decodes c.type w v) ∧
      (c.type = .files →
        ((Facet.ofProperty c.type.key w).isEmpty = true ↔
          ∀ j ∈ wireItems c.type w, j.field? "name" = none) ∧
        (v.IsEmpty ↔ ∀ j ∈ wireItems c.type w, FileLink.ofJson? j = none)) := by
  rw [← ofWire_ofType] at h
  generalize c.type = t at h ⊢
  refine ⟨fun ht => decodes_list (by simpa using ht) h,
    fun ht => decodes_text (by simpa using ht) h, ?_, ?_⟩
  · rintro rfl hmatched
    exact decodes_files h hmatched
  · rintro rfl
    obtain ⟨hv, -, hfacet⟩ := files_of_ofWire h
    rw [hfacet, hv]
    simp [List.filterMap_eq_nil_iff]

/-- A title whose only segment has null for its plain text. -/
def untold : Json :=
  property .title (.array [.ofFields
    [("plain_text", .null), ("text", .ofFields [("content", .string "A")])]])

/-- A list of files whose only entry has an address and no name. -/
def unnamed : Json :=
  property .files (.array [.ofFields
    [("external", .ofFields [("url", .string "https://x.org/a.png")])]])

/-- Users without an id are passed over by both sides, and the null makes a difference. -/
theorem decodes_settles_crew :
    Decodes .people (property .people (.array [.ofFields [], Person.toJson "user-1"]))
        (.strings ["user-1"]) ∧
      title.ofWire untold = .ok (.string "A") ∧ ¬ Decodes .title untold (.string "A") := by
  have hcrew : people.ofWire (property .people (.array [.ofFields [], Person.toJson "user-1"])) =
      .ok (.strings ["user-1"]) := rfl
  have huntold : title.ofWire untold = .ok (.string "A") := rfl
  refine ⟨(decodes_settles hcrew).1 (by decide), huntold, fun hdecodes => ?_⟩
  have hseen := ((decodes_settles huntold).2.1 (by decide)).mp hdecodes
  exact absurd (hseen _ (List.mem_singleton_self _) "A" ⟨.null, rfl, rfl, rfl⟩) (by decide)

/-- The title has a text and filters see none, and they see no files where there is one. -/
theorem not_forall_decodes :
    (¬ ∀ (c : Codec) (w : Json) (v : Value),
      c.type ∈ [.title, .richText, .multiSelect, .people, .relation, .files] →
      c.ofWire w = .ok v → Facet.ofProperty c.type.key w = Facet.ofValue c.type v ∧
        ((Facet.ofProperty c.type.key w).isEmpty = true ↔ v = .string "" ∨ v = .array [])) ∧
    ¬ ∀ (w : Json) (v : Value), files.ofWire w = .ok v →
      ((Facet.ofProperty "files" w).isEmpty = true ↔ v = .array []) := by
  constructor
  · intro hall
    have htext : Facet.text "" = Facet.text "A" := (hall title untold _ (by decide) rfl).1
    exact absurd htext (by decide)
  · intro hall
    have hnone := (hall unnamed _ rfl).mp rfl
    exact nomatch hnone

end Codec
end DocTables
