import DocTables.Proofs.Codec.ReadBack

/-!
What reading a property gives, whatever document stands there: a value of the kind that belongs to
the type, and the neutral one when the payload is missing or malformed. Numbers are the exception,
since their payload is not looked into.
-/
namespace DocTables

namespace PropertyType

/-- The value of a property without a usable payload. -/
def neutral : PropertyType → Value
  | title | richText => .string ""
  | checkbox => .bool false
  | multiSelect | people | files | relation => .array []
  | _ => .null

/-- The payload has the outer shape of its type. What lists hold may still be anything. -/
def Shaped : PropertyType → Json → Prop
  | title, j | richText, j | multiSelect, j | people, j | files, j | relation, j =>
    ∃ items, j = .array items
  | number, j => ∃ x, j.number? = some x
  | checkbox, j => ∃ b, j = .bool b
  | date, j => ∃ start, j.field? "start" = some start
  | url, j | email, j | phoneNumber, j | createdTime, j | lastEditedTime, j => ∃ s, j = .string s
  | select, j | status, j => ∃ name, j.field? "name" = some name
  | createdBy, j | lastEditedBy, j => ∃ id, j.field? "id" = some id
  | uniqueId, j => ∃ n : Int64, j.get? "number" = some (.int n.toInt)

/-- A number property whose payload is there and is not a number. -/
def Stray (t : PropertyType) (w : Json) : Prop :=
  t = number ∧ ∃ p, w.payload? t.key = some p ∧ ∀ x, p.number? ≠ some x

/-- The payload is missing or malformed. -/
def Unusable (t : PropertyType) (w : Json) : Prop := ∀ p, w.payload? t.key = some p → ¬ t.Shaped p

end PropertyType

/-- The value is of the kind that belongs to a type. -/
def Value.Fits (v : Value) : PropertyType → Prop
  | .title | .richText => ∃ s, v = .string s
  | .number => v = .null ∨ (∃ n, v = .int n) ∨ ∃ x, v = .float x
  | .checkbox => ∃ b, v = .bool b
  | .date => v = .null ∨ (∃ s, v = .string s) ∨
      ∃ start finish zone, v = .ofFields [("start", .string start), ("end", .ofString? finish),
        ("time_zone", .ofString? zone)]
  | .multiSelect | .people => ∃ ss : List String, v = .array (ss.map .string)
  | .files => ∃ links : List (String × String), v = .array (links.map fun link =>
      .ofFields [("name", .string link.1), ("url", .string link.2)])
  | .relation => ∃ ids : List String, v = .array (ids.map fun id => .ofFields [("id", .string id)])
  | .uniqueId => v = .null ∨ (∃ n, v = .int n) ∨ ∃ s, v = .string s
  | _ => v = .null ∨ ∃ s, v = .string s

namespace Json

theorem payload?_of_get? {w j : Json} {k : String} (h : w.get? k = some j) (hj : j.isNull = false) :
    w.payload? k = some j := by
  simp [payload?, h, hj]

theorem string?_eq_some {j : Json} {s : String} : j.string? = some s ↔ j = .string s := by
  cases j <;> simp [string?]

theorem bool?_eq_some {j : Json} {b : Bool} : j.bool? = some b ↔ j = .bool b := by
  cases j <;> simp [bool?]

theorem array?_eq_some {j : Json} {items : List Json} :
    j.array? = some items ↔ j = .array items := by
  cases j <;> simp [array?]

end Json

theorem Value.ofString?_fits (s : Option String) :
    Value.ofString? s = .null ∨ ∃ t, Value.ofString? s = .string t := by
  cases s with
  | none => exact .inl rfl
  | some t => exact .inr ⟨t, rfl⟩

theorem DateSpan.toValue_fits (d : DateSpan) : d.toValue.Fits .date := by
  unfold toValue
  split
  · exact .inr (.inl ⟨d.start, rfl⟩)
  · exact .inr (.inr ⟨d.start, d.finish, d.zone, rfl⟩)

theorem int64?_eq_some {n : Int} {m : Int64} (h : int64? n = some m) : m.toInt = n := by
  have hmin : Int64.minValue.toInt = -2 ^ 63 := by decide
  have hmax : Int64.maxValue.toInt = 2 ^ 63 - 1 := by decide
  unfold int64? at h
  split at h
  next hn =>
    obtain rfl := Option.some.inj h
    exact Int64.toInt_ofInt_of_le (by omega) (by omega)
  next => exact nomatch h

/-- A document is read as a number just when it is one. -/
theorem Value.ofJson_fits_number {j : Json} (hj : j.isNull = false) :
    (Value.ofJson j).Fits .number ↔ ∃ x, j.number? = some x := by
  cases j with
  | null => simp [Json.isNull] at hj
  | int n =>
    refine ⟨fun _ => ⟨_, rfl⟩, fun _ => ?_⟩
    simp only [ofJson]
    cases int64? n with
    | none => exact .inr (.inr ⟨_, rfl⟩)
    | some m => exact .inr (.inl ⟨m, rfl⟩)
  | real x => exact ⟨fun _ => ⟨_, rfl⟩, fun _ => .inr (.inr ⟨x.val, rfl⟩)⟩
  | bool => simp [ofJson, Value.Fits, Json.number?]
  | string => simp [ofJson, Value.Fits, Json.number?]
  | array => simp [ofJson, Value.Fits, Json.number?]
  | object => simp [ofJson, Value.Fits, Json.number?]

namespace Codec

theorem readUniqueId_fits (j : Json) : (readUniqueId j).Fits .uniqueId := by
  unfold readUniqueId
  split
  · exact .inl rfl
  · split
    · split
      · exact .inr (.inl ⟨_, rfl⟩)
      · exact .inr (.inr ⟨_, rfl⟩)
    · exact .inr (.inl ⟨_, rfl⟩)

theorem readUniqueId_eq_null {j : Json} (h : ¬ PropertyType.uniqueId.Shaped j) :
    readUniqueId j = .null := by
  unfold readUniqueId
  split
  next => rfl
  next n hn =>
    obtain ⟨i, hi, hn⟩ := Option.bind_eq_some_iff.mp hn
    split at hn
    next m =>
      exact absurd ⟨n, by rw [int64?_eq_some hn]; exact hi⟩ h
    next => exact nomatch hn

/-- A list that is not there holds nothing. -/
theorem wireItems_eq_nil {t : PropertyType} {w : Json}
    (h : ∀ p, w.payload? t.key = some p → ¬ ∃ items, p = .array items) : wireItems t w = [] := by
  unfold wireItems
  cases hw : w.get? t.key with
  | none => rfl
  | some j =>
    cases j with
    | array items => exact absurd ⟨items, rfl⟩ (h _ (Json.payload?_of_get? hw rfl))
    | _ => rfl

/-- A title is read when it has an array, and fails in one way. -/
theorem ofWire_title (w : Json) :
    (∃ segments, w.get? "title" = some (.array segments) ∧
      title.ofWire w = .ok (.string (RichText.joined segments))) ∨
    (∀ segments, w.get? "title" ≠ some (.array segments)) ∧
      title.ofWire w = .error .noTitleArray := by
  simp only [ofWire, type, PropertyType.key]
  cases hw : (w.get? "title").bind Json.array? with
  | none =>
    refine .inr ⟨fun segments hs => ?_, rfl⟩
    simp [hs, Json.array?] at hw
  | some segments =>
    obtain ⟨j, hj, ha⟩ := Option.bind_eq_some_iff.mp hw
    obtain rfl := Json.array?_eq_some.mp ha
    exact .inl ⟨segments, hj, rfl⟩

/-- Only titles fail, and they do when they have no array. -/
theorem ofWire_eq_error {c : Codec} {w : Json} {e : CodecFailure} :
    c.ofWire w = .error e ↔
      e = .noTitleArray ∧ c.type = .title ∧ ∀ items, w.get? "title" ≠ some (.array items) := by
  cases c with
  | title =>
    obtain ⟨segments, hw, h⟩ | ⟨hno, h⟩ := ofWire_title w
    · simp [h, hw]
    · simp [h, hno, type, eq_comm]
  | contact kind => cases kind <;> simp [ofWire, type, ContactKind.type]
  | choice kind => cases kind <;> simp [ofWire, type, ChoiceKind.type]
  | _ => simp [ofWire, type]

/-- What is read is of the kind that belongs to the type. -/
theorem fits_of_ofWire {c : Codec} {w : Json} {v : Value} (h : c.ofWire w = .ok v)
    (hs : ¬ c.type.Stray w) : v.Fits c.type := by
  cases c with
  | title =>
    obtain ⟨segments, -, hv⟩ | ⟨-, he⟩ := ofWire_title w
    · exact ⟨_, Except.ok.inj (h.symm.trans hv)⟩
    · exact nomatch h.symm.trans he
  | number format =>
    obtain rfl := Except.ok.inj h
    cases hp : w.payload? PropertyType.number.key with
    | none => exact .inl (by simp [type, hp])
    | some p =>
      have hnull : p.isNull = false := by simpa using (Option.filter_eq_some_iff.mp hp).2
      have hx : ∃ x, p.number? = some x := by
        by_contra hx
        exact hs ⟨rfl, p, hp, fun x hpx => hx ⟨x, hpx⟩⟩
      have hfits := (Value.ofJson_fits_number hnull).mpr hx
      simpa [type, hp] using hfits
  | date =>
    obtain rfl := Except.ok.inj h
    cases (w.payload? (type date).key).bind DateSpan.ofJson? with
    | none => exact .inl rfl
    | some d => exact d.toValue_fits
  | contact kind =>
    obtain rfl := Except.ok.inj h
    cases kind <;> exact Value.ofString?_fits _
  | choice kind options =>
    obtain rfl := Except.ok.inj h
    cases kind <;> exact Value.ofString?_fits _
  | files =>
    obtain rfl := Except.ok.inj h
    refine ⟨((wireItems (type files) w).filterMap FileLink.ofJson?).map fun f => (f.name, f.url),
      ?_⟩
    rw [List.map_map]
    rfl
  | uniqueId label =>
    obtain rfl := Except.ok.inj h
    cases w.payload? (type (uniqueId label)).key with
    | none => exact .inl rfl
    | some p => exact readUniqueId_fits p
  | createdTime | lastEditedTime | createdBy | lastEditedBy =>
    obtain rfl := Except.ok.inj h
    exact Value.ofString?_fits _
  | richText | checkbox | multiSelect | people | relation => exact ⟨_, (Except.ok.inj h).symm⟩

/-- A reader that asks for the shape of a type finds nothing in a payload without it. -/
theorem bind_eq_none {t : PropertyType} {w : Json} {α : Type} {read : Json → Option α}
    (hu : t.Unusable w) (hread : ∀ j a, read j = some a → t.Shaped j) :
    (w.payload? t.key).bind read = none := by
  cases hp : w.payload? t.key with
  | none => rfl
  | some p =>
    cases ha : read p with
    | none => simp [ha]
    | some a => exact absurd (hread p a ha) (hu p hp)

/-- A missing or malformed payload is read as the neutral value. -/
theorem neutral_of_ofWire {c : Codec} {w : Json} {v : Value} (h : c.ofWire w = .ok v)
    (hs : ¬ c.type.Stray w) (hu : c.type.Unusable w) : v = c.type.neutral := by
  cases c with
  | title =>
    obtain ⟨segments, hw, -⟩ | ⟨-, he⟩ := ofWire_title w
    · exact absurd ⟨segments, rfl⟩ (hu _ (Json.payload?_of_get? hw rfl))
    · exact nomatch h.symm.trans he
  | number format =>
    obtain rfl := Except.ok.inj h
    cases hp : w.payload? PropertyType.number.key with
    | none => simp [type, hp, PropertyType.neutral]
    | some p => exact absurd ⟨rfl, p, hp, fun x hx => hu p hp ⟨x, hx⟩⟩ hs
  | checkbox =>
    obtain rfl := Except.ok.inj h
    rw [bind_eq_none hu fun j b hb => ⟨b, Json.bool?_eq_some.mp hb⟩]
    rfl
  | date =>
    have hread : ∀ j d, DateSpan.ofJson? j = some d → (type date).Shaped j := by
      intro j d hd
      obtain ⟨start, hstart, -⟩ := Option.map_eq_some_iff.mp hd
      exact ⟨start, hstart⟩
    obtain rfl := Except.ok.inj h
    rw [bind_eq_none hu hread]
    rfl
  | contact kind =>
    have hread : ∀ j s, j.string? = some s → (type (contact kind)).Shaped j := by
      intro j s hj
      cases kind <;> exact ⟨s, Json.string?_eq_some.mp hj⟩
    obtain rfl := Except.ok.inj h
    rw [bind_eq_none hu hread]
    cases kind <;> rfl
  | choice kind options =>
    have hread : ∀ (j : Json) s, j.field? "name" = some s →
        (type (choice kind options)).Shaped j := by
      intro j s hj
      cases kind <;> exact ⟨s, hj⟩
    obtain rfl := Except.ok.inj h
    rw [bind_eq_none hu hread]
    cases kind <;> rfl
  | richText | multiSelect | people | files | relation =>
    obtain rfl := Except.ok.inj h
    rw [wireItems_eq_nil hu]
    rfl
  | createdTime | lastEditedTime =>
    obtain rfl := Except.ok.inj h
    rw [bind_eq_none hu fun j s hj => ⟨s, Json.string?_eq_some.mp hj⟩]
    rfl
  | createdBy | lastEditedBy =>
    obtain rfl := Except.ok.inj h
    rw [bind_eq_none hu fun j s hj => ⟨s, hj⟩]
    rfl
  | uniqueId label =>
    obtain rfl := Except.ok.inj h
    cases hp : w.payload? PropertyType.uniqueId.key with
    | none => simp [type, hp, PropertyType.neutral]
    | some p => simp [type, hp, PropertyType.neutral, readUniqueId_eq_null (hu p hp)]

/-- The payload of a stray number is taken as it is, and is of no kind that belongs to numbers. -/
theorem stray_of_ofWire {c : Codec} {w : Json} {v : Value} (h : c.ofWire w = .ok v)
    (hs : c.type.Stray w) :
    (∃ p, w.payload? c.type.key = some p ∧ v = .ofJson p) ∧ ¬ v.Fits c.type := by
  obtain ⟨ht, p, hp, hx⟩ := hs
  cases c with
  | number format =>
    obtain rfl := Except.ok.inj h
    have hv : (w.payload? (type (number format)).key).elim .null Value.ofJson = .ofJson p := by
      rw [hp]
      rfl
    have hnull : p.isNull = false := by simpa using (Option.filter_eq_some_iff.mp hp).2
    refine ⟨⟨p, hp, hv⟩, fun hfits => ?_⟩
    rw [hv] at hfits
    obtain ⟨x, hpx⟩ := (Value.ofJson_fits_number hnull).mp hfits
    exact hx x hpx
  | contact kind => cases kind <;> exact nomatch ht
  | choice kind options => cases kind <;> exact nomatch ht
  | _ => exact nomatch ht

/-- Reading fails for a title without its array and for nothing else. What is read is of the kind
of the column, and neutral where the payload is missing or malformed, unless a number property has
a payload that is not a number: that payload comes back as it stands. -/
theorem ofWire_settles (c : Codec) (w : Json) :
    (∀ e, c.ofWire w = .error e ↔
      e = .noTitleArray ∧ c.type = .title ∧ ∀ items, w.get? "title" ≠ some (.array items)) ∧
    ∀ v, c.ofWire w = .ok v →
      (v.Fits c.type ↔ ¬ c.type.Stray w) ∧
      (¬ c.type.Stray w → c.type.Unusable w → v = c.type.neutral) ∧
      (c.type.Stray w → ∃ p, w.payload? c.type.key = some p ∧ v = .ofJson p) := by
  refine ⟨fun _ => ofWire_eq_error, fun v h => ⟨⟨?_, fits_of_ofWire h⟩, neutral_of_ofWire h, ?_⟩⟩
  · intro hfits hs
    exact (stray_of_ofWire h hs).2 hfits
  · exact fun hs => (stray_of_ofWire h hs).1

/-- A checkbox with a text in it is read as not set. -/
theorem ofWire_settles_checkbox :
    checkbox.ofWire (property .checkbox (.string "yes")) = .ok (.bool false) ∧
    (Value.bool false).Fits (type checkbox) ∧ Value.bool false = (type checkbox).neutral := by
  have hread : checkbox.ofWire (property .checkbox (.string "yes")) = .ok (.bool false) := rfl
  have hstray : ¬ (type checkbox).Stray (property .checkbox (.string "yes")) := by
    rintro ⟨ht, -⟩
    exact nomatch ht
  have hunusable : (type checkbox).Unusable (property .checkbox (.string "yes")) := by
    intro p hp
    obtain rfl : Json.string "yes" = p := Option.some.inj hp
    rintro ⟨b, hb⟩
    exact nomatch hb
  obtain ⟨hfits, hneutral, -⟩ := (ofWire_settles checkbox _).2 _ hread
  exact ⟨hread, hfits.mpr hstray, hneutral hstray hunusable⟩

/-- A number property that holds a text is read as that text. -/
theorem exists_ofWire_not_fits :
    (number none).ofWire (property .number (.string "abc")) = .ok (.string "abc") ∧
    ¬ (Value.string "abc").Fits (type (number none)) := by
  refine ⟨rfl, ?_⟩
  rintro (h | ⟨n, h⟩ | ⟨x, h⟩) <;> exact nomatch h

end Codec
end DocTables
