import DocTables.Proofs.Codec.ReadBack

/-!
Canonical forms: what an accepted value reads back as once it is stored. Storing the canonical form
gives the same payload, so nothing is lost by a further round.
-/
namespace DocTables
open Outcome

namespace Value

/-- The trimmed text given by itself or under a field. -/
def trimmedName (field : String) (v : Value) : String := Text.trim ((v.named? field).getD "")

/-- A date by its start alone, or with its end and time zone if one of them is a text. -/
def canonicalDate (v : Value) : Value :=
  match v.field? "end", v.field? "time_zone" with
  | none, none => .string (v.trimmedName "start")
  | finish, zone =>
    .ofFields [("start", .string (v.trimmedName "start")),
      ("end", .ofString? (finish.map Text.trim)), ("time_zone", .ofString? zone)]

/-- A file by name and address; a name that is not a text comes from the address. -/
def canonicalFile (v : Value) : Value :=
  let url := v.trimmedName "url"
  .ofFields [("name", .string ((v.field? "name").getD (FileLink.nameOfUrl url))),
    ("url", .string url)]

end Value

namespace Codec

/-- What a value reads back as, for the values that the codec accepts. -/
def canonical (c : Codec) (v : Value) : Value :=
  match c with
  | title | richText | contact _ => .string (Text.trim (v.string?.getD ""))
  | choice _ _ => .string (v.trimmedName "name")
  | date => v.canonicalDate
  | multiSelect _ => .strings (((v.array?.getD []).map (Value.trimmedName "name")).eraseDups)
  | people => .strings (v.oneOrMany.map (Value.trimmedName "id"))
  | files => .array (v.oneOrMany.map Value.canonicalFile)
  | relation =>
    .array (v.oneOrMany.map fun item => .ofFields [("id", .string (item.trimmedName "id"))])
  | number _ | checkbox | createdTime | lastEditedTime | createdBy | lastEditedBy | uniqueId _ => v

end Codec

theorem map_eq_of_forall₂ {α β γ : Type} {R : α → β → Prop} {F : β → γ} {G : α → γ} {P : β → Prop}
    {xs : List α} {ys : List β} (h : List.Forall₂ R xs ys) (hR : ∀ x y, R x y → F y = G x ∧ P y) :
    ys.map F = xs.map G ∧ ∀ y ∈ ys, P y := by
  induction h with
  | nil => simp
  | cons hxy _ ih =>
    obtain ⟨heq, hholds⟩ := hR _ _ hxy
    rw [List.map_cons, List.map_cons, heq, ih.1]
    exact ⟨rfl, List.forall_mem_cons.mpr ⟨hholds, ih.2⟩⟩

/-- Names that were read are the trimmed ones. -/
theorem forall₂_readName {field : String} {expected : Expected} {ifEmpty : Rejection}
    {items : List Value} {ss : List String}
    (h : List.Forall₂ (fun v s => readName field expected ifEmpty v = .ok s) items ss) :
    ss = items.map (Value.trimmedName field) ∧ ∀ s ∈ ss, IsName s := by
  have hread : ss.map id = items.map (Value.trimmedName field) ∧ ∀ s ∈ ss, IsName s := by
    refine map_eq_of_forall₂ h fun v s hs => ?_
    obtain ⟨r, hr, rfl, he⟩ := readName_eq_ok.mp hs
    exact ⟨by simp [Value.trimmedName, hr], isName_trim he⟩
  rwa [List.map_id] at hread

namespace Choice

theorem forall₂_read {options : Option (List String)} {items : List Value} {ss : List String}
    (h : List.Forall₂ (fun v s => read options v = .ok s) items ss) :
    ss = items.map (Value.trimmedName "name") ∧ ∀ s ∈ ss, IsName s ∧ Allowed options s := by
  have hread : ss.map id = items.map (Value.trimmedName "name") ∧
      ∀ s ∈ ss, IsName s ∧ Allowed options s := by
    refine map_eq_of_forall₂ h fun v s hs => ?_
    obtain ⟨r, hr, rfl, he, ha⟩ := read_eq_ok.mp hs
    exact ⟨by simp [Value.trimmedName, hr], isName_trim he, ha⟩
  rwa [List.map_id] at hread

end Choice

namespace FileLink

theorem toValue_ofUrl (v : Value) :
    (ofUrl (v.field? "name") (v.trimmedName "url")).toValue = v.canonicalFile := rfl

theorem forall₂_read {items : List Value} {fs : List FileLink}
    (h : List.Forall₂ (fun v f => read v = .ok f) items fs) :
    fs.map toValue = items.map Value.canonicalFile ∧ ∀ f ∈ fs, IsName f.url := by
  refine map_eq_of_forall₂ h fun v f hf => ?_
  obtain ⟨r, hr, he, rfl⟩ := read_eq_ok.mp hf
  refine ⟨?_, isName_trim he⟩
  rw [← toValue_ofUrl]
  simp [Value.trimmedName, hr]

end FileLink

namespace DateSpan

/-- A date that was read is trimmed, and shown as the canonical form of what it was read from. -/
theorem canonical_of_ofValue {v : Value} {d : DateSpan} (h : ofValue v = .ok d) :
    d.toValue = v.canonicalDate ∧ d.Valid ∧ d.Trimmed := by
  obtain ⟨s, hs, hv, rfl⟩ := ofValue_eq_ok.mp h
  refine ⟨?_, hv, Text.trim_trim s, ?_⟩
  · unfold toValue Value.canonicalDate Value.trimmedName
    rw [hs]
    cases v.field? "end" <;> cases v.field? "time_zone" <;> rfl
  · cases v.field? "end" <;> simp

end DateSpan

@[simp] theorem int64?_toInt (n : Int64) : int64? n.toInt = some n := by
  have hmin : Int64.minValue.toInt ≤ n.toInt := Int64.minValue_le_toInt n
  have hmax : n.toInt ≤ Int64.maxValue.toInt := by
    have h := Int64.toInt_lt n
    have hval : Int64.maxValue.toInt = 2 ^ 63 - 1 := by decide
    omega
  rw [int64?, if_pos ⟨hmin, hmax⟩, Int64.ofInt_toInt]

namespace Codec

theorem content_checkbox {v : Value} {j : Json} :
    checkbox.content v = .ok j ↔ ∃ b, v = .bool b ∧ j = .bool b := by
  cases v <;> simp [content, Value.bool?, eq_comm]

theorem content_multiSelect {options : Option (List String)} {v : Value} {j : Json} :
    (multiSelect options).content v = .ok j ↔
      ∃ items names, v = .array items ∧ items.mapM (Choice.read options) = .ok names ∧
        j = .array ((Choice.dedup names).map Choice.toJson) := by
  cases v with
  | array items =>
    simp only [content, Value.array?, bind_eq_ok, Value.array.injEq]
    constructor
    · rintro ⟨names, hn, h⟩
      exact ⟨items, names, rfl, hn, (Except.ok.inj h).symm⟩
    · rintro ⟨_, names, rfl, hn, rfl⟩
      exact ⟨names, hn, rfl⟩
  | null => simp [content, Value.array?]
  | bool => simp [content, Value.array?]
  | int => simp [content, Value.array?]
  | float => simp [content, Value.array?]
  | string => simp [content, Value.array?]
  | map => simp [content, Value.array?]

/-- A payload is read as the canonical form of the value it was made from. -/
theorem ofWire_property {c : Codec} {v : Value} {j : Json} (h : c.content v = .ok j) :
    c.ofWire (property c.type j) = .ok (c.canonical v) := by
  cases c with
  | title =>
    obtain ⟨_, hs, h⟩ := bind_eq_ok.mp h
    obtain ⟨r, rfl, rfl⟩ := readText_eq_ok.mp hs
    split at h
    · simp at h
    · obtain rfl := Except.ok.inj h
      simp [ofWire, RichText.ofText_eq, Json.array?, RichText.joined_segments, canonical]
  | richText =>
    obtain ⟨_, hs, rfl⟩ := map_eq_ok.mp h
    obtain ⟨r, rfl, rfl⟩ := readText_eq_ok.mp hs
    simp [ofWire, RichText.ofText_eq, RichText.joined_segments, canonical]
  | number format =>
    rcases readNumber_eq_ok.mp h with ⟨n, rfl, rfl⟩ | ⟨x, rfl, rfl⟩
    · rw [ofWire, payload?_property _ rfl]
      simp [Value.ofJson, canonical]
    · rw [ofWire, payload?_property _ rfl]
      rfl
  | checkbox =>
    obtain ⟨b, rfl, rfl⟩ := content_checkbox.mp h
    rw [ofWire, payload?_property _ rfl]
    rfl
  | date =>
    obtain ⟨d, hd, rfl⟩ := map_eq_ok.mp h
    rw [ofWire, payload?_property _ d.isNull_toJson]
    simp [canonical, (DateSpan.canonical_of_ofValue hd).1]
  | contact kind =>
    obtain ⟨_, hs, rfl⟩ := map_eq_ok.mp h
    obtain ⟨r, rfl, rfl, -, -⟩ := readContact_eq_ok.mp hs
    rw [ofWire, payload?_property _ rfl]
    rfl
  | choice kind options =>
    obtain ⟨_, hs, rfl⟩ := map_eq_ok.mp h
    obtain ⟨r, hr, rfl, -, -⟩ := Choice.read_eq_ok.mp hs
    rw [ofWire, payload?_property _ rfl]
    simp [canonical, Value.trimmedName, hr, Value.ofString?]
  | multiSelect options =>
    obtain ⟨items, names, rfl, hn, rfl⟩ := content_multiSelect.mp h
    obtain ⟨rfl, -⟩ := Choice.forall₂_read (mapM_eq_ok.mp hn)
    simp [ofWire, List.filterMap_map, canonical, Value.array?, Choice.dedup_eq]
  | people =>
    obtain ⟨ids, hids, rfl⟩ := map_eq_ok.mp h
    obtain ⟨rfl, -⟩ := forall₂_readName (mapM_eq_ok.mp hids)
    simp [ofWire, List.filterMap_map, canonical]
  | files =>
    obtain ⟨fs, hfs, rfl⟩ := map_eq_ok.mp h
    have hmap := (FileLink.forall₂_read (mapM_eq_ok.mp hfs)).1
    simp [ofWire, List.filterMap_map, canonical, hmap]
  | relation =>
    obtain ⟨ids, hids, rfl⟩ := map_eq_ok.mp h
    obtain ⟨rfl, -⟩ := forall₂_readName (mapM_eq_ok.mp hids)
    simp [ofWire, List.filterMap_map, canonical, RecordLink.toValue]
  | createdTime => simp [content] at h
  | lastEditedTime => simp [content] at h
  | createdBy => simp [content] at h
  | lastEditedBy => simp [content] at h
  | uniqueId => simp [content] at h

/-- The canonical form is stored like the value it comes from. -/
theorem content_canonical {c : Codec} {v : Value} {j : Json} (h : c.content v = .ok j) :
    c.content (c.canonical v) = .ok j := by
  cases c with
  | title =>
    obtain ⟨_, hs, h⟩ := bind_eq_ok.mp h
    obtain ⟨r, rfl, rfl⟩ := readText_eq_ok.mp hs
    exact bind_eq_ok.mpr ⟨_, readText_eq_ok.mpr ⟨_, rfl, (Text.trim_trim r).symm⟩, h⟩
  | richText =>
    obtain ⟨_, hs, rfl⟩ := map_eq_ok.mp h
    obtain ⟨r, rfl, rfl⟩ := readText_eq_ok.mp hs
    exact map_eq_ok.mpr ⟨_, readText_eq_ok.mpr ⟨_, rfl, (Text.trim_trim r).symm⟩, rfl⟩
  | number format => exact h
  | checkbox => exact h
  | date =>
    obtain ⟨d, hd, rfl⟩ := map_eq_ok.mp h
    obtain ⟨hc, hv, ht⟩ := DateSpan.canonical_of_ofValue hd
    rw [canonical, ← hc]
    exact map_eq_ok.mpr ⟨d, DateSpan.ofValue_toValue hv ht, rfl⟩
  | contact kind =>
    obtain ⟨_, hs, rfl⟩ := map_eq_ok.mp h
    obtain ⟨r, rfl, rfl, he, hm⟩ := readContact_eq_ok.mp hs
    have hread : readContact kind (.string (Text.trim r)) = .ok (Text.trim r) :=
      readContact_eq_ok.mpr ⟨Text.trim r, rfl, (Text.trim_trim r).symm, he, hm⟩
    have hname : canonical (contact kind) (.string r) = .string (Text.trim r) := rfl
    rw [content, hname, hread]
    rfl
  | choice kind options =>
    obtain ⟨_, hs, rfl⟩ := map_eq_ok.mp h
    obtain ⟨r, hr, rfl, he, ha⟩ := Choice.read_eq_ok.mp hs
    have hname : canonical (choice kind options) v = .string (Text.trim r) := by
      simp [canonical, Value.trimmedName, hr]
    rw [content, hname, Choice.read_string (isName_trim he) ha]
    rfl
  | multiSelect options =>
    obtain ⟨items, names, rfl, hn, rfl⟩ := content_multiSelect.mp h
    obtain ⟨rfl, hall⟩ := Choice.forall₂_read (mapM_eq_ok.mp hn)
    refine content_multiSelect.mpr ⟨_, Choice.dedup (items.map (Value.trimmedName "name")), rfl,
      ?_, by rw [Choice.dedup_dedup]⟩
    rw [Value.array?, Option.getD_some, ← Choice.dedup_eq]
    refine mapM_map_eq_ok fun s hs => ?_
    obtain ⟨hname, ha⟩ := hall s ((Choice.dedup_sublist _).subset hs)
    exact Choice.read_string hname ha
  | people =>
    obtain ⟨ids, hids, rfl⟩ := map_eq_ok.mp h
    obtain ⟨rfl, hall⟩ := forall₂_readName (mapM_eq_ok.mp hids)
    refine map_eq_ok.mpr ⟨v.oneOrMany.map (Value.trimmedName "id"), ?_, rfl⟩
    have hnames : (canonical people v).oneOrMany =
        (v.oneOrMany.map (Value.trimmedName "id")).map .string := rfl
    rw [hnames]
    exact mapM_map_eq_ok fun id hid => Person.read_string (hall id hid)
  | files =>
    obtain ⟨fs, hfs, rfl⟩ := map_eq_ok.mp h
    obtain ⟨hmap, hall⟩ := FileLink.forall₂_read (mapM_eq_ok.mp hfs)
    refine map_eq_ok.mpr ⟨fs, ?_, rfl⟩
    have hfiles : (canonical files v).oneOrMany = fs.map FileLink.toValue := hmap.symm
    rw [hfiles]
    exact mapM_map_eq_ok fun f hf => FileLink.read_toValue (hall f hf)
  | relation =>
    obtain ⟨ids, hids, rfl⟩ := map_eq_ok.mp h
    obtain ⟨rfl, hall⟩ := forall₂_readName (mapM_eq_ok.mp hids)
    refine map_eq_ok.mpr ⟨v.oneOrMany.map (Value.trimmedName "id"), ?_, rfl⟩
    have hlinks : (canonical relation v).oneOrMany =
        (v.oneOrMany.map (Value.trimmedName "id")).map RecordLink.toValue := by
      simp [canonical, Value.oneOrMany, RecordLink.toValue]
    rw [hlinks]
    exact mapM_map_eq_ok fun id hid => RecordLink.read_toValue (hall id hid)
  | createdTime => simp [content] at h
  | lastEditedTime => simp [content] at h
  | createdBy => simp [content] at h
  | lastEditedBy => simp [content] at h
  | uniqueId => simp [content] at h

/-- A stored value is read back in its canonical form, and the canonical form is stored in the same
way. -/
theorem ofWire_toWire_canonical (c : Codec) (v : Value) (w : Json) (h : c.toWire v = .ok w) :
    c.ofWire w = .ok (c.canonical v) ∧ c.toWire (c.canonical v) = .ok w := by
  obtain ⟨j, hj, rfl⟩ := map_eq_ok.mp h
  exact ⟨ofWire_property hj, map_eq_ok.mpr ⟨j, content_canonical hj, rfl⟩⟩

/-- Two spellings of a name are stored as one. -/
theorem ofWire_toWire_repeated :
    (multiSelect (some ["a", "b"])).toWire
        (.array [.string " a ", .ofFields [("name", .string "b")], .string "a"]) =
      .ok (property .multiSelect (.array [Choice.toJson "a", Choice.toJson "b"])) ∧
    (multiSelect (some ["a", "b"])).ofWire
        (property .multiSelect (.array [Choice.toJson "a", Choice.toJson "b"])) =
      .ok (.strings ["a", "b"]) :=
  ⟨rfl, (ofWire_toWire_canonical (multiSelect (some ["a", "b"]))
    (.array [.string " a ", .ofFields [("name", .string "b")], .string "a"]) _ rfl).1⟩

end Codec
end DocTables
