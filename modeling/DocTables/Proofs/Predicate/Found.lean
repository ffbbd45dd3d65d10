import DocTables.Proofs.Predicate.Agreement

/-!
Whether a value that was just written is found by comparing with it. Codecs store texts trimmed and
filters take them as they are given, so a text with blanks around it misses what it was stored as.
-/
namespace DocTables
open Outcome

namespace Scalar

def trimmed : Scalar → Scalar
  | text s => text (Text.trim s)
  | a => a

def isNaN : Scalar → Bool
  | number x => x.isNaN
  | _ => false

theorem trimmed_equal {a : Scalar} (hnan : a.isNaN = false) :
    a.trimmed.Equal a ↔ ∀ s, a = .text s → Text.trim s = s := by
  cases a with
  | text s => simp [trimmed, Equal]
  | number x =>
    have hself : x.numEq x = true := Binary64.numEq_self hnan
    simp [trimmed, Equal, hself]
  | bool b => simp [trimmed, Equal]

end Scalar

/-- What comparisons look at in an operand has no blanks around it, if it is a text. -/
def Value.IsTrimmed (t : PropertyType) (v : Value) : Prop :=
  ∀ s, v.operandScalar? t = some (.text s) → Text.trim s = s

namespace Codec

/-- A filter takes any value that the codec of its column accepts, and compares with what stands in
the canonical form, but for the blanks around a text. -/
theorem operand_of_content {c : Codec} {v : Value} {j : Json} (h : c.content v = .ok j)
    (ht : Comparison.eq.supports c.type = true) (name : String) :
    (∃ o, (PropertyRef.mk name c.type).operand v = .ok o) ∧
      ∃ a, v.operandScalar? c.type = some a ∧
        (c.canonical v).scalar? c.type = some a.trimmed ∧ a.isNaN = false := by
  cases c with
  | title =>
    obtain ⟨_, hs, -⟩ := bind_eq_ok.mp h
    obtain ⟨r, rfl, -⟩ := readText_eq_ok.mp hs
    exact ⟨⟨_, rfl⟩, .text r, rfl, rfl, rfl⟩
  | richText =>
    obtain ⟨_, hs, -⟩ := map_eq_ok.mp h
    obtain ⟨r, rfl, -⟩ := readText_eq_ok.mp hs
    exact ⟨⟨_, rfl⟩, .text r, rfl, rfl, rfl⟩
  | number format =>
    rcases readNumber_eq_ok.mp h with ⟨n, rfl, -⟩ | ⟨x, rfl, -⟩
    · exact ⟨⟨_, rfl⟩, .number (.ofInt n.toInt), rfl, rfl, Binary64.isNaN_ofInt _⟩
    · refine ⟨⟨.real x, ?_⟩, .number x.val, rfl, rfl, x.isNaN_val⟩
      simp [PropertyRef.operand, type, Binary64.finite?, x.finite]
  | checkbox =>
    obtain ⟨b, rfl, -⟩ := content_checkbox.mp h
    exact ⟨⟨_, rfl⟩, .bool b, rfl, rfl, rfl⟩
  | date =>
    obtain ⟨d, hd, -⟩ := map_eq_ok.mp h
    obtain ⟨hc, -, -⟩ := DateSpan.canonical_of_ofValue hd
    obtain ⟨s, hs, -, rfl⟩ := DateSpan.ofValue_eq_ok.mp hd
    refine ⟨⟨.string s, ?_⟩, .text s, ?_, ?_, rfl⟩
    · simp [PropertyRef.operand, type, PropertyRef.textOr, hs]
    · simp [Value.operandScalar?, type, hs]
    · simp [canonical, ← hc, Value.scalar?, type, Scalar.trimmed]
  | contact kind =>
    obtain ⟨_, hs, -⟩ := map_eq_ok.mp h
    obtain ⟨r, rfl, -, -, -⟩ := readContact_eq_ok.mp hs
    cases kind <;> exact ⟨⟨_, rfl⟩, .text r, rfl, rfl, rfl⟩
  | choice kind options =>
    obtain ⟨_, hs, -⟩ := map_eq_ok.mp h
    obtain ⟨r, hr, -, -, -⟩ := Choice.read_eq_ok.mp hs
    have hname : canonical (choice kind options) v = .string (Text.trim r) := by
      simp [canonical, Value.trimmedName, hr]
    refine ⟨⟨.string r, ?_⟩, .text r, ?_, ?_, rfl⟩
    · cases kind <;> simp [PropertyRef.operand, type, ChoiceKind.type, PropertyRef.textOr, hr]
    · cases kind <;> simp [Value.operandScalar?, type, ChoiceKind.type, hr]
    · rw [hname]
      cases kind <;> rfl
  | createdTime => simp [content] at h
  | lastEditedTime => simp [content] at h
  | uniqueId => simp [content] at h
  | multiSelect | people | files | relation | createdBy | lastEditedBy =>
    exact absurd ht Bool.false_ne_true

/-- A canonical form gives the same to a filter as it shows in a record. -/
theorem operandScalar?_canonical {c : Codec} {v : Value} {j : Json} (h : c.content v = .ok j)
    (ht : Comparison.eq.supports c.type = true) :
    (c.canonical v).operandScalar? c.type = (c.canonical v).scalar? c.type := by
  cases c with
  | contact kind => cases kind <;> rfl
  | choice kind options => cases kind <;> rfl
  | title | richText | number | checkbox | date => rfl
  | createdTime => simp [content] at h
  | lastEditedTime => simp [content] at h
  | uniqueId => simp [content] at h
  | multiSelect | people | files | relation | createdBy | lastEditedBy =>
    exact absurd ht Bool.false_ne_true

theorem isTrimmed_canonical {c : Codec} {v : Value} {j : Json} (h : c.content v = .ok j)
    (ht : Comparison.eq.supports c.type = true) : (c.canonical v).IsTrimmed c.type := by
  intro s hs
  obtain ⟨-, a, -, ha, -⟩ := operand_of_content h ht ""
  rw [operandScalar?_canonical h ht, ha] at hs
  cases a with
  | text r =>
    obtain rfl := Scalar.text.inj (Option.some.inj hs)
    exact Text.trim_trim r
  | number x => exact nomatch Option.some.inj hs
  | bool b => exact nomatch Option.some.inj hs

/-- A stored value equals the operand it was stored from when that is trimmed. -/
theorem canonical_eq_operand_iff {c : Codec} {v : Value} {j : Json} (h : c.content v = .ok j)
    (ht : Comparison.eq.supports c.type = true) :
    Comparison.eq.Holds c.type (some (c.canonical v)) v ↔ v.IsTrimmed c.type := by
  obtain ⟨-, a, hv, hcanonical, hnan⟩ := operand_of_content h ht ""
  rw [Comparison.Holds, Comparison.related_iff hv, Option.bind_some, hcanonical]
  simp only [Option.some.injEq, exists_eq_left', Scalar.trimmed_equal hnan, Value.IsTrimmed, hv]

end Codec

namespace Predicate

/-- On a record that holds what `v` was stored as, the filter for a comparison with an operand
decides whether the comparison holds of the canonical form of `v`. -/
theorem filter_of_content {c : Column} {op : Comparison} {v : Value} {j : Json}
    (h : c.codec.content v = .ok j) (ht : op.supports c.type = true) {operand : Value} {o : Json}
    (ho : c.ref.operand operand = .ok o) {properties : Properties} {p : Json}
    (hget : properties.get? c.name = some p) (hp : p.get? c.type.key = some j) :
    ∃ found, (Filter.ofJson (c.ref.condition (op.word c.type) o)).holds properties = .ok found ∧
      (found = true ↔ op.Holds c.type (some (c.codec.canonical v)) operand) := by
  obtain ⟨a, hv, hshows⟩ := PropertyRef.operand_eq_ok ho
  have hfacet : Facet.ofProperty c.type.key p =
      Facet.ofValue? c.type (some (c.codec.canonical v)) := by
    rw [Facet.ofProperty_congr (hp.trans (Codec.get?_property c.type j).symm)]
    exact Codec.facet_content h
  refine ⟨_, leaf_filter (Comparison.ofName?_word op c.type) properties, ?_⟩
  have hname : properties.get? c.ref.name = some p := hget
  have htype : c.ref.type = c.type := rfl
  rw [hname, Option.elim_some, htype, hfacet]
  exact Comparison.holds_iff ht hv hshows

/-- A payload under its type, with or without the tag that a store adds. -/
theorem get?_of_stored {t : PropertyType} {j p : Json}
    (h : p = Codec.property t j ∨ p = Stamp.tagged (Codec.property t j)) :
    p.get? t.key = some j := by
  rcases h with rfl | rfl
  · exact Codec.get?_property t j
  · exact Stamp.get?_tagged_property t j

/-- Comparing with any value that a column accepts makes a filter. On a record that holds what the
value was stored as, the filter finds the record when the value is trimmed, and with the value read
back in its place it always does. -/
theorem eq_filter_finds {c : Column} {v : Value} {w : Json}
    (ht : Comparison.eq.supports c.type = true) (h : c.codec.toWire v = .ok w) :
    (∃ filter, (compare .eq c.ref v).toFilter = .ok filter ∧
      ∀ (properties : Properties) (p : Json), properties.get? c.name = some p →
        p = w ∨ p = Stamp.tagged w →
        ∃ found, (Filter.ofJson filter).holds properties = .ok found ∧
          (found = true ↔ v.IsTrimmed c.type)) ∧
    ∃ filter, (compare .eq c.ref (c.codec.canonical v)).toFilter = .ok filter ∧
      ∀ (properties : Properties) (p : Json), properties.get? c.name = some p →
        p = w ∨ p = Stamp.tagged w → (Filter.ofJson filter).holds properties = .ok true := by
  obtain ⟨j, hj, rfl⟩ := map_eq_ok.mp h
  constructor
  · obtain ⟨⟨o, ho⟩, -⟩ := Codec.operand_of_content hj ht c.name
    refine ⟨_, toFilter_compare ht ho, fun properties p hget hp => ?_⟩
    obtain ⟨found, hfound, hiff⟩ := filter_of_content hj ht ho hget (get?_of_stored hp)
    exact ⟨found, hfound, hiff.trans (Codec.canonical_eq_operand_iff hj ht)⟩
  · have hcanonical := Codec.content_canonical hj
    obtain ⟨⟨o, ho⟩, -⟩ := Codec.operand_of_content hcanonical ht c.name
    refine ⟨_, toFilter_compare ht ho, fun properties p hget hp => ?_⟩
    obtain ⟨found, hfound, hiff⟩ := filter_of_content hcanonical ht ho hget (get?_of_stored hp)
    obtain rfl : found = true := hiff.mpr
      ((Codec.canonical_eq_operand_iff hcanonical ht).mpr (Codec.isTrimmed_canonical hj ht))
    exact hfound

/-- The stage that a task is in. -/
def stageColumn : Column := .ofType .select "Stage"

theorem eq_filter_finds_stage :
    ∃ filter, (compare .eq stageColumn.ref (.string "Todo")).toFilter = .ok filter ∧
      (Filter.ofJson filter).holds ⟨[("Stage", Codec.property .select (Choice.toJson "Todo"))]⟩ =
        .ok true := by
  obtain ⟨⟨filter, hfilter, hfinds⟩, -⟩ := eq_filter_finds (c := stageColumn) (v := .string "Todo")
    (w := Codec.property .select (Choice.toJson "Todo")) rfl rfl
  obtain ⟨found, hfound, hiff⟩ := hfinds
    ⟨[("Stage", Codec.property .select (Choice.toJson "Todo"))]⟩ _ rfl (.inl rfl)
  obtain rfl : found = true := by
    refine hiff.mpr fun s hs => ?_
    obtain rfl : "Todo" = s := Scalar.text.inj (Option.some.inj hs)
    decide
  exact ⟨filter, hfilter, hfound⟩

/-- A stage given with blanks around it is stored without them and then not found. -/
theorem not_forall_eq_filter_finds :
    ¬ ∀ (c : Column) (v : Value) (w : Json), Comparison.eq.supports c.type = true →
      c.codec.toWire v = .ok w → ∃ filter, (compare .eq c.ref v).toFilter = .ok filter ∧
        ∀ properties : Properties, properties.get? c.name = some w →
          (Filter.ofJson filter).holds properties = .ok true := by
  intro h
  have hwire : stageColumn.codec.toWire (.string " Todo ") =
      .ok (Codec.property .select (Choice.toJson "Todo")) := rfl
  obtain ⟨filter, hfilter, hholds⟩ := h stageColumn (.string " Todo ") _ rfl hwire
  obtain rfl := Except.ok.inj hfilter
  have hfound := hholds ⟨[("Stage", Codec.property .select (Choice.toJson "Todo"))]⟩ rfl
  have hmissed : (Filter.ofJson (stageColumn.ref.condition "equals" (.string " Todo "))).holds
      ⟨[("Stage", Codec.property .select (Choice.toJson "Todo"))]⟩ = .ok false := rfl
  exact nomatch hmissed.symm.trans hfound

end Predicate
end DocTables
