import DocTables.Proofs.Codec.Canonical
import DocTables.Proofs.Predicate.Meaning
import DocTables.Store.Facet
import DocTables.Store.Stamp

/-!
Properties as stores hold them: payloads of codecs with the tag of their type, and the stamps of the
store itself. Each is decoded, and the facet that filters compare is that of the decoded value.
-/
namespace DocTables
open Outcome

/-- A property of type `t` as a store holds it. -/
inductive Written (t : PropertyType) : Json → Prop
  | stored {c : Codec} {v : Value} {w : Json} :
      c.type = t → c.toWire v = .ok w → Written t (Stamp.tagged w)
  | cleared {c : Codec} : c.type = t → Written t (Stamp.tagged c.empty)
  | stamped {config content : Json} {now : String} {number : Nat} :
      Stamp.content? t config now number = some content → Written t (Stamp.property t content)

/-- The number of a unique id has at most 64 bits, as a count of records in a memory does. -/
def NumberFits (w : Json) : Prop :=
  ∀ n, (w.get? PropertyType.uniqueId.key).bind (·.get? "number") = some (.int n) →
    n ≤ Int64.maxValue.toInt

theorem PropertyType.key_of_ofKey? {k : String} {t : PropertyType} (h : ofKey? k = some t) :
    t.key = k := by
  simpa using List.find?_some h

theorem PropertyType.key_injective {t u : PropertyType} (h : t.key = u.key) : t = u := by
  have hkey := ofKey?_key t
  rw [h, ofKey?_key] at hkey
  exact (Option.some.inj hkey).symm

theorem PropertyType.key_ne_type (t : PropertyType) : t.key ≠ "type" := by cases t <;> decide

namespace Stamp

theorem declaredType?_property (t : PropertyType) (j : Json) :
    (Codec.property t j).declaredType? = some t.key := by
  have hfields : Codec.property t j = .object ⟨[(t.key, j)]⟩ := rfl
  have htype : (⟨[(t.key, j)]⟩ : KeyMap Json).get? "type" = none := by
    simp [KeyMap.get?, KeyMap.lookup, t.key_ne_type]
  rw [hfields, Json.declaredType?, htype]
  simp [KeyMap.keys, PropertyType.ofKey?_key]

/-- A payload gets the type it stands under. -/
theorem tagged_property (t : PropertyType) (j : Json) :
    tagged (Codec.property t j) =
      .object (KeyMap.insert ⟨[(t.key, j)]⟩ "type" (.string t.key)) := by
  have hfields : Codec.property t j = .object ⟨[(t.key, j)]⟩ := rfl
  have htype : (⟨[(t.key, j)]⟩ : KeyMap Json).contains "type" = false := by
    simp [KeyMap.contains, KeyMap.get?, KeyMap.lookup, t.key_ne_type]
  have hdeclared := declaredType?_property t j
  rw [hfields] at hdeclared ⊢
  unfold tagged
  simp only [hdeclared, htype]
  rfl

@[simp] theorem get?_tagged_property (t : PropertyType) (j : Json) :
    (tagged (Codec.property t j)).get? t.key = some j := by
  rw [tagged_property, Json.get?, KeyMap.get?_insert_of_ne t.key_ne_type]
  simp [KeyMap.get?, KeyMap.lookup]

@[simp] theorem get?_property (t : PropertyType) (j : Json) :
    (property t j).get? t.key = some j := by
  simp [property, KeyMap.lookup]

end Stamp

namespace DateSpan

theorem start_ne_empty {d : DateSpan} (h : d.Valid) : d.start ≠ "" := by
  intro he
  have hdate := h.1
  rw [he] at hdate
  exact absurd hdate (by decide)

theorem not_isEmpty_toValue {d : DateSpan} (h : d.Valid) : ¬ d.toValue.IsEmpty := by
  unfold toValue
  split
  · rw [Value.isEmpty_string]
    exact start_ne_empty h
  · simp [Value.IsEmpty, Value.ofFields]

end DateSpan

namespace Codec

/-- Decoding looks at nothing but the content under the key of the type. -/
theorem ofWire_congr {c : Codec} {w x : Json} (h : w.get? c.type.key = x.get? c.type.key) :
    c.ofWire w = c.ofWire x := by
  simp only [ofWire, wireItems, Json.payload?, h]

/-- Declared options, formats and labels do not matter for decoding. -/
theorem ofWire_ofType (c : Codec) (w : Json) : (ofType c.type).ofWire w = c.ofWire w := by
  cases c with
  | contact kind => cases kind <;> rfl
  | choice kind options => cases kind <;> rfl
  | _ => rfl

end Codec

namespace Facet

def ofScalar? : Option Scalar → Facet
  | some (.text s) => text s
  | some (.number x) => number x
  | some (.bool b) => bool b
  | none => empty

/-- The facet of a decoded value. -/
def ofValue (t : PropertyType) (v : Value) : Facet :=
  match t with
  | .multiSelect | .people => list ((v.array?.getD []).filterMap Value.string?)
  | .files => list ((v.array?.getD []).filterMap (·.field? "name"))
  | .relation => list ((v.array?.getD []).filterMap (·.field? "id"))
  | .createdBy | .lastEditedBy => list v.string?.toList
  | t => ofScalar? (v.scalar? t)

@[simp] theorem isEmpty_text (s : String) : (text s).isEmpty = true ↔ s = "" := by simp [isEmpty]

@[simp] theorem isEmpty_list (ss : List String) : (list ss).isEmpty = true ↔ ss = [] := by
  simp [isEmpty]

@[simp] theorem isEmpty_number (x : Binary64) : (number x).isEmpty = false := rfl

theorem ofValue_strings {t : PropertyType} (ht : t = .multiSelect ∨ t = .people)
    (ss : List String) : ofValue t (.strings ss) = .list ss := by
  rcases ht with rfl | rfl <;>
    simp [ofValue, Value.strings, Value.array?, List.filterMap_map, Function.comp_def]

theorem ofValue_links (ids : List String) :
    ofValue .relation (.array (ids.map RecordLink.toValue)) = .list ids := by
  simp [ofValue, Value.array?, List.filterMap_map, Function.comp_def, RecordLink.toValue,
    KeyMap.lookup]

theorem ofValue_files (links : List FileLink) :
    ofValue .files (.array (links.map FileLink.toValue)) =
      .list (links.map FileLink.name) := by
  simp [ofValue, Value.array?, List.filterMap_map, Function.comp_def, FileLink.toValue,
    KeyMap.lookup]

@[simp] theorem shownText?_segment (s : String) : shownText? (RichText.segment s) = some s := by
  simp [shownText?, RichText.segment, KeyMap.lookup]

theorem shown_segments (s : String) :
    String.join ((RichText.segments s).filterMap shownText?) = s :=
  RichText.join_segments shownText?_segment s

/-- Facets, too, look at nothing but the content under the key. -/
theorem ofProperty_congr {key : String} {w x : Json} (h : w.get? key = x.get? key) :
    ofProperty key w = ofProperty key x := by
  simp only [ofProperty, Json.payload?, h]

theorem ofProperty_property (t : PropertyType) {j : Json} (h : j.isNull = false) :
    ofProperty t.key (Codec.property t j) = ofPayload (some t) (some j) := by
  rw [ofProperty, PropertyType.ofKey?_key, Codec.payload?_property t h]

end Facet

namespace Codec

/-- The facet of a stored value is that of its canonical form. -/
theorem facet_content {c : Codec} {v : Value} {j : Json} (h : c.content v = .ok j) :
    Facet.ofProperty c.type.key (property c.type j) = Facet.ofValue c.type (c.canonical v) := by
  cases c with
  | title =>
    obtain ⟨_, hs, h⟩ := bind_eq_ok.mp h
    obtain ⟨r, rfl, rfl⟩ := readText_eq_ok.mp hs
    split at h
    · simp at h
    · obtain rfl := Except.ok.inj h
      rw [RichText.ofText_eq, Facet.ofProperty_property _ rfl]
      simp [Facet.ofPayload, Json.items, type, Facet.shown_segments, Facet.ofValue, canonical,
        Value.scalar?, Facet.ofScalar?]
  | richText =>
    obtain ⟨_, hs, rfl⟩ := map_eq_ok.mp h
    obtain ⟨r, rfl, rfl⟩ := readText_eq_ok.mp hs
    rw [RichText.ofText_eq, Facet.ofProperty_property _ rfl]
    simp [Facet.ofPayload, Json.items, type, Facet.shown_segments, Facet.ofValue, canonical,
      Value.scalar?, Facet.ofScalar?]
  | number format =>
    rcases readNumber_eq_ok.mp h with ⟨n, rfl, rfl⟩ | ⟨x, rfl, rfl⟩
    · rw [Facet.ofProperty_property _ rfl]
      rfl
    · rw [Facet.ofProperty_property _ rfl]
      rfl
  | checkbox =>
    obtain ⟨b, rfl, rfl⟩ := content_checkbox.mp h
    rw [Facet.ofProperty_property _ rfl]
    rfl
  | date =>
    obtain ⟨d, hd, rfl⟩ := map_eq_ok.mp h
    obtain ⟨hc, -, -⟩ := DateSpan.canonical_of_ofValue hd
    rw [Facet.ofProperty_property _ d.isNull_toJson]
    simp [Facet.ofPayload, Facet.ofValue, canonical, ← hc, Value.scalar?, DateSpan.toJson,
      KeyMap.lookup, type, Facet.ofString?, Facet.ofScalar?]
  | contact kind =>
    obtain ⟨_, hs, rfl⟩ := map_eq_ok.mp h
    obtain ⟨r, rfl, rfl, -, -⟩ := readContact_eq_ok.mp hs
    rw [Facet.ofProperty_property _ rfl]
    cases kind <;> rfl
  | choice kind options =>
    obtain ⟨_, hs, rfl⟩ := map_eq_ok.mp h
    obtain ⟨r, hr, rfl, -, -⟩ := Choice.read_eq_ok.mp hs
    have hname : canonical (choice kind options) v = .string (Text.trim r) := by
      simp [canonical, Value.trimmedName, hr]
    rw [Facet.ofProperty_property _ rfl, hname]
    cases kind <;>
      simp [Facet.ofPayload, type, ChoiceKind.type, Facet.ofString?, Facet.ofValue, Value.scalar?,
        Facet.ofScalar?]
  | multiSelect options =>
    obtain ⟨items, names, rfl, hn, rfl⟩ := content_multiSelect.mp h
    obtain ⟨rfl, -⟩ := Choice.forall₂_read (mapM_eq_ok.mp hn)
    rw [Facet.ofProperty_property _ rfl, canonical, type, Facet.ofValue_strings (.inl rfl)]
    simp [Facet.ofPayload, Facet.names, Json.items, List.filterMap_map, Value.array?,
      Choice.dedup_eq]
  | people =>
    obtain ⟨ids, hids, rfl⟩ := map_eq_ok.mp h
    obtain ⟨rfl, -⟩ := forall₂_readName (mapM_eq_ok.mp hids)
    rw [Facet.ofProperty_property _ rfl, canonical, type, Facet.ofValue_strings (.inr rfl)]
    simp [Facet.ofPayload, Facet.names, Json.items, List.filterMap_map]
  | files =>
    obtain ⟨fs, hfs, rfl⟩ := map_eq_ok.mp h
    have hmap := (FileLink.forall₂_read (mapM_eq_ok.mp hfs)).1
    rw [Facet.ofProperty_property _ rfl, canonical, type, ← hmap, Facet.ofValue_files]
    simp [Facet.ofPayload, Facet.names, Json.items, List.filterMap_map]
  | relation =>
    obtain ⟨ids, hids, rfl⟩ := map_eq_ok.mp h
    obtain ⟨rfl, -⟩ := forall₂_readName (mapM_eq_ok.mp hids)
    rw [Facet.ofProperty_property _ rfl]
    simp [Facet.ofPayload, Facet.names, Json.items, type, List.filterMap_map, Facet.ofValue,
      canonical, Value.array?, KeyMap.lookup, Function.comp_def]
  | createdTime => simp [content] at h
  | lastEditedTime => simp [content] at h
  | createdBy => simp [content] at h
  | lastEditedBy => simp [content] at h
  | uniqueId => simp [content] at h

/-- Canonical forms are empty when their facets are; a checkbox is never tested for it. -/
theorem isEmpty_canonical {c : Codec} {v : Value} {j : Json} (h : c.content v = .ok j)
    (ht : c.type.hasNullCheck = true) :
    (Facet.ofValue c.type (c.canonical v)).isEmpty = true ↔ (c.canonical v).IsEmpty := by
  cases c with
  | title => simp [type, Facet.ofValue, canonical, Value.scalar?, Facet.ofScalar?]
  | richText => simp [type, Facet.ofValue, canonical, Value.scalar?, Facet.ofScalar?]
  | number format =>
    rcases readNumber_eq_ok.mp h with ⟨n, rfl, rfl⟩ | ⟨x, rfl, rfl⟩ <;>
      simp [type, Facet.ofValue, canonical, Value.scalar?, Value.float?, Facet.ofScalar?,
        Value.IsEmpty]
  | checkbox => exact absurd ht (by decide)
  | date =>
    obtain ⟨d, hd, rfl⟩ := map_eq_ok.mp h
    obtain ⟨hc, hv, -⟩ := DateSpan.canonical_of_ofValue hd
    have hfacet : Facet.ofValue .date d.toValue = .text d.start := by
      simp [Facet.ofValue, Value.scalar?, Facet.ofScalar?]
    rw [canonical, ← hc, type, hfacet, Facet.isEmpty_text]
    exact iff_of_false (DateSpan.start_ne_empty hv) (DateSpan.not_isEmpty_toValue hv)
  | contact kind =>
    cases kind <;>
      simp [type, ContactKind.type, Facet.ofValue, canonical, Value.scalar?, Facet.ofScalar?]
  | choice kind options =>
    cases kind <;>
      simp [type, ChoiceKind.type, Facet.ofValue, canonical, Value.scalar?, Facet.ofScalar?]
  | multiSelect options =>
    rw [type, canonical, Facet.ofValue_strings (.inl rfl)]
    simp [Value.strings]
  | people =>
    rw [type, canonical, Facet.ofValue_strings (.inr rfl)]
    simp [Value.strings]
  | files =>
    simp [type, Facet.ofValue, canonical, Value.canonicalFile, Value.array?, List.filterMap_map,
      Function.comp_def, KeyMap.lookup]
  | relation =>
    simp [type, Facet.ofValue, canonical, Value.array?, List.filterMap_map, Function.comp_def,
      KeyMap.lookup]
  | createdTime => simp [content] at h
  | lastEditedTime => simp [content] at h
  | createdBy => simp [content] at h
  | lastEditedBy => simp [content] at h
  | uniqueId => simp [content] at h

end Codec

/-- A property with the value it is decoded to: filters see the facet of the value, and see that it
is empty when the value is. -/
structure Decodes (t : PropertyType) (w : Json) (v : Value) : Prop where
  value : (Codec.ofType t).ofWire w = .ok v
  facet : Facet.ofProperty t.key w = Facet.ofValue t v
  isEmpty : t.hasNullCheck = true → ((Facet.ofValue t v).isEmpty = true ↔ v.IsEmpty)

namespace Decodes

theorem congr {t : PropertyType} {w x : Json} {v : Value} (h : Decodes t w v)
    (hx : x.get? t.key = w.get? t.key) : Decodes t x v := by
  refine ⟨?_, ?_, h.isEmpty⟩
  · rw [← h.value]
    exact Codec.ofWire_congr (by rwa [Codec.type_ofType])
  · rw [Facet.ofProperty_congr hx, h.facet]

theorem content {c : Codec} {v : Value} {j : Json} (h : c.content v = .ok j) :
    Decodes c.type (Codec.property c.type j) (c.canonical v) :=
  ⟨by rw [Codec.ofWire_ofType, Codec.ofWire_property h], Codec.facet_content h,
    Codec.isEmpty_canonical h⟩

theorem of_isEmpty {t : PropertyType} {w : Json} {v : Value}
    (hvalue : (Codec.ofType t).ofWire w = .ok v)
    (hfacet : Facet.ofProperty t.key w = Facet.ofValue t v)
    (hempty : (Facet.ofValue t v).isEmpty = true) (hv : v.IsEmpty) : Decodes t w v :=
  ⟨hvalue, hfacet, fun _ => iff_of_true hempty hv⟩

theorem empty (c : Codec) : ∃ v, Decodes c.type c.empty v := by
  cases c with
  | title => exact ⟨.string "", .of_isEmpty rfl rfl rfl (.inr (.inl rfl))⟩
  | richText => exact ⟨.string "", .of_isEmpty rfl rfl rfl (.inr (.inl rfl))⟩
  | number => exact ⟨.null, .of_isEmpty rfl rfl rfl (.inl rfl)⟩
  | checkbox => exact ⟨.bool false, rfl, rfl, fun h => absurd h (by decide)⟩
  | date => exact ⟨.null, .of_isEmpty rfl rfl rfl (.inl rfl)⟩
  | contact kind => cases kind <;> exact ⟨.null, .of_isEmpty rfl rfl rfl (.inl rfl)⟩
  | choice kind => cases kind <;> exact ⟨.null, .of_isEmpty rfl rfl rfl (.inl rfl)⟩
  | multiSelect => exact ⟨.array [], .of_isEmpty rfl rfl rfl (.inr (.inr rfl))⟩
  | people => exact ⟨.array [], .of_isEmpty rfl rfl rfl (.inr (.inr rfl))⟩
  | files => exact ⟨.array [], .of_isEmpty rfl rfl rfl (.inr (.inr rfl))⟩
  | relation => exact ⟨.array [], .of_isEmpty rfl rfl rfl (.inr (.inr rfl))⟩
  | createdTime => exact ⟨.null, .of_isEmpty rfl rfl rfl (.inl rfl)⟩
  | lastEditedTime => exact ⟨.null, .of_isEmpty rfl rfl rfl (.inl rfl)⟩
  | createdBy => exact ⟨.null, .of_isEmpty rfl rfl rfl (.inl rfl)⟩
  | lastEditedBy => exact ⟨.null, .of_isEmpty rfl rfl rfl (.inl rfl)⟩
  | uniqueId => exact ⟨.null, .of_isEmpty rfl rfl rfl (.inl rfl)⟩

end Decodes

/-- The number behind a label is read back. -/
theorem Value.shownNumber?_labelled (label : String) (n : Nat) :
    (Value.string (label ++ "-" ++ toString (n : Int))).shownNumber? = int64? n := by
  have hdigits : (toString (n : Int)).toList = Nat.toDigits 10 n := by
    have hnat : toString (n : Int) = toString n := rfl
    rw [hnat, Nat.toString_eq_repr, Nat.toList_repr]
  have hinside : ∀ c ∈ (Nat.toDigits 10 n).reverse, (c != '-') = true := by
    intro c hc
    have hdigit : c.isDigit = true :=
      Nat.isDigit_of_mem_toDigits (by decide) (by decide) (List.mem_reverse.mp hc)
    rw [bne_iff_ne]
    rintro rfl
    exact absurd hdigit (by decide)
  rw [shownNumber?, String.toList_append, String.toList_append, hdigits, List.reverse_append,
    List.takeWhile_append_of_pos hinside, List.reverse_append]
  simp [Text.decimal?_toDigits]

theorem int64?_natCast {n : Nat} (h : (n : Int) ≤ Int64.maxValue.toInt) :
    ∃ m : Int64, int64? n = some m ∧ m.toInt = n := by
  have hmax : Int64.maxValue.toInt = 2 ^ 63 - 1 := by decide
  have hmin : Int64.minValue.toInt = -2 ^ 63 := by decide
  refine ⟨.ofInt n, ?_, Int64.toInt_ofInt_of_le (by omega) (by omega)⟩
  rw [int64?, if_pos ⟨by omega, h⟩]

/-- The number of a unique id is read back, whatever label stands in front of it. -/
theorem shownNumber?_readUniqueId {label : Json} {n : Nat} {m : Int64} (hn : int64? n = some m)
    (hm : m.toInt = n) :
    (Codec.readUniqueId (.ofFields [("prefix", label), ("number", .int n)])).shownNumber? =
      some m := by
  simp only [Codec.readUniqueId, Json.get?_ofFields, Json.field?_ofFields]
  simp only [List.reverse_cons, List.reverse_nil, List.nil_append, List.cons_append,
    KeyMap.lookup, if_true, Option.bind_some, hn]
  rw [if_neg (by decide), Option.bind_some]
  cases label.string? with
  | none => rfl
  | some s =>
    by_cases hs : s = ""
    · simp only [hs, if_true]
      rfl
    · simp only [hs, if_false, hm, Value.shownNumber?_labelled, hn]

namespace Decodes

theorem time {t : PropertyType} (ht : t = .createdTime ∨ t = .lastEditedTime) (now : String) :
    Decodes t (Codec.property t (.string now)) (.string now) := by
  rcases ht with rfl | rfl <;>
    exact ⟨rfl, rfl, fun _ => (Facet.isEmpty_text now).trans (Value.isEmpty_string now).symm⟩

theorem user {t : PropertyType} (ht : t = .createdBy ∨ t = .lastEditedBy) {id : String}
    (hid : id ≠ "") : Decodes t (Codec.property t (Person.toJson id)) (.string id) := by
  have hpayload := Codec.payload?_property t (j := Person.toJson id) rfl
  have hfacet : Facet.ofProperty t.key (Codec.property t (Person.toJson id)) = .list [id] := by
    rw [Facet.ofProperty_property t rfl]
    rcases ht with rfl | rfl <;> simp [Facet.ofPayload]
  have hlist : Facet.ofValue t (.string id) = .list [id] := by
    rcases ht with rfl | rfl <;> rfl
  refine ⟨?_, hfacet.trans hlist.symm, fun _ => by simp [hlist, hid]⟩
  rcases ht with rfl | rfl <;>
  · rw [Codec.ofType, Codec.ofWire, Codec.type, hpayload]
    simp [Value.ofString?]

theorem number {label : Json} {n : Nat} (h : (n : Int) ≤ Int64.maxValue.toInt) :
    ∃ v, Decodes .uniqueId (Codec.property .uniqueId
      (.ofFields [("prefix", label), ("number", .int n)])) v := by
  obtain ⟨m, hn, hm⟩ := int64?_natCast h
  have hpayload := Codec.payload?_property .uniqueId
    (j := .ofFields [("prefix", label), ("number", .int n)]) rfl
  refine ⟨Codec.readUniqueId (.ofFields [("prefix", label), ("number", .int n)]), ?_, ?_,
    fun h => absurd h (by decide)⟩
  · rw [Codec.ofType, Codec.ofWire, Codec.type, hpayload]
    rfl
  · rw [Facet.ofProperty_property .uniqueId rfl]
    simp [Facet.ofPayload, Facet.ofValue, Value.scalar?, shownNumber?_readUniqueId hn hm,
      KeyMap.lookup, Json.number?, Facet.ofNumber?, Facet.ofScalar?, hm]

theorem stamp {t : PropertyType} {config content : Json} {now : String} {number : Nat}
    (h : Stamp.content? t config now number = some content)
    (hfits : NumberFits (Stamp.property t content)) :
    ∃ v, Decodes t (Codec.property t content) v := by
  cases t with
  | createdTime =>
    obtain rfl := Option.some.inj h
    exact ⟨.string now, .time (.inl rfl) now⟩
  | lastEditedTime =>
    obtain rfl := Option.some.inj h
    exact ⟨.string now, .time (.inr rfl) now⟩
  | createdBy =>
    obtain rfl := Option.some.inj h
    exact ⟨.string _, .user (.inl rfl) (by decide)⟩
  | lastEditedBy =>
    obtain rfl := Option.some.inj h
    exact ⟨.string _, .user (.inr rfl) (by decide)⟩
  | uniqueId =>
    obtain rfl := Option.some.inj h
    refine Decodes.number (hfits number ?_)
    simp [KeyMap.lookup]
  | _ => simp [Stamp.content?] at h

end Decodes

/-- What was sent to the store is decoded. What the store has put there itself is left. -/
theorem Written.decodes_or_stamped {t : PropertyType} {w : Json} (h : Written t w) :
    (∃ v, Decodes t w v) ∨ ∃ config content now number,
      Stamp.content? t config now number = some content ∧ w = Stamp.property t content := by
  cases h with
  | stored hc hw =>
    obtain ⟨j, hj, rfl⟩ := map_eq_ok.mp hw
    subst hc
    exact .inl ⟨_, (Decodes.content hj).congr (by simp)⟩
  | @cleared c hc =>
    subst hc
    obtain ⟨v, hv⟩ := Decodes.empty c
    exact .inl ⟨v, hv.congr (by simp [Codec.empty])⟩
  | stamped hcontent => exact .inr ⟨_, _, _, _, hcontent, rfl⟩

/-- What a store holds is decoded, and filtered by what it is decoded to. -/
theorem Written.decodes {t : PropertyType} {w : Json} (h : Written t w) (hfits : NumberFits w) :
    ∃ v, Decodes t w v := by
  rcases h.decodes_or_stamped with hdecodes | ⟨_, _, _, _, hcontent, rfl⟩
  · exact hdecodes
  · obtain ⟨v, hv⟩ := Decodes.stamp hcontent hfits
    exact ⟨v, hv.congr (by simp)⟩

/-- Decoding never fails on what a store holds, however great the numbers in it. -/
theorem Written.ofWire_eq_ok {c : Codec} {w : Json} (h : Written c.type w) :
    ∃ v, c.ofWire w = .ok v := by
  rw [← Codec.ofWire_ofType]
  rcases h.decodes_or_stamped with ⟨v, hv⟩ | ⟨_, _, _, _, hcontent, rfl⟩
  · exact ⟨v, hv.value⟩
  · generalize c.type = t at hcontent
    cases t with
    | title => simp [Stamp.content?] at hcontent
    | _ => exact ⟨_, rfl⟩

end DocTables
