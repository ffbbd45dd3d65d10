import DocTables.Proofs.Predicate.Condition

/-!
Filters agree with predicates: evaluating the filter of a predicate never fails, and on properties
that a store holds it decides what the predicate means.
-/
namespace DocTables
open Outcome

namespace Predicate

@[elab_as_elim] theorem induction {P : Predicate → Prop}
    (compare : ∀ op p v, P (.compare op p v))
    (emptiness : ∀ p empty, P (.emptiness p empty))
    (combine : ∀ op parts, (∀ p ∈ parts, P p) → P (.combine op parts)) (p : Predicate) : P p :=
  Predicate.rec (motive_2 := fun ps => ∀ p ∈ ps, P p) compare emptiness combine
    (fun _ h => absurd h List.not_mem_nil)
    (fun _ _ hp hps => List.forall_mem_cons.mpr ⟨hp, hps⟩) p

theorem mem_refsOf {q : PropertyRef} {ps : List Predicate} :
    q ∈ refsOf ps ↔ ∃ p ∈ ps, q ∈ p.refs := by
  induction ps with
  | nil => simp [refsOf]
  | cons p ps ih => simp [refsOf, ih]

theorem forall₂_toFilters {ps : List Predicate} {js : List Json} (h : toFilters ps = .ok js) :
    List.Forall₂ (fun p j => p.toFilter = .ok j) ps js := by
  induction ps generalizing js with
  | nil =>
    obtain rfl := Except.ok.inj h
    exact .nil
  | cons p ps ih =>
    obtain ⟨j, hj, h⟩ := bind_eq_ok.mp h
    obtain ⟨js', hjs, h⟩ := bind_eq_ok.mp h
    obtain rfl := Except.ok.inj h
    exact .cons hj (ih hjs)

end Predicate

/-- The decoded value of a property of a record, if the record has it. -/
def decodedValue? (codecs : PropertyRef → Codec) (properties : Properties) (q : PropertyRef) :
    Option Value :=
  (properties.get? q.name).bind fun w => ((codecs q).ofWire w).toOption

namespace PropertyTest

theorem holds_single {name key word : String} {operand : Json} {c : Condition}
    (hc : Condition.ofName? word = some c) (properties : Properties) :
    holds ⟨name, key, [(word, operand)]⟩ properties =
      .ok (c.holds ((properties.get? name).elim .empty (Facet.ofProperty key)) operand) := by
  simp only [holds, checkAll, hc]
  split
  next h => rw [h]
  next h => rw [Bool.not_eq_true _ |>.mp h]

end PropertyTest

namespace Predicate

/-- The filter of a comparison or a test for emptiness, as the store reads it. -/
theorem leaf_filter {p : PropertyRef} {word : String} {operand : Json} {c : Condition}
    (hc : Condition.ofName? word = some c) (properties : Properties) :
    (Filter.ofJson (p.condition word operand)).holds properties =
      .ok (c.holds ((properties.get? p.name).elim .empty (Facet.ofProperty p.type.key))
        operand) := by
  rw [PropertyRef.ofJson_condition]
  exact PropertyTest.holds_single hc properties

theorem comparisonFilter_eq_ok {op : Comparison} {p : PropertyRef} {v : Value} {j : Json}
    (h : comparisonFilter op p v = .ok j) :
    op.supports p.type = true ∧ ∃ o, p.operand v = .ok o ∧ j = p.condition (op.word p.type) o := by
  unfold comparisonFilter at h
  split at h
  next hs =>
    obtain ⟨o, ho, rfl⟩ := map_eq_ok.mp h
    exact ⟨hs, o, ho, rfl⟩
  next => simp [PropertyRef.refuseOperator] at h

theorem toFilter_compare {op : Comparison} {p : PropertyRef} {v : Value} {o : Json}
    (hs : op.supports p.type = true) (ho : p.operand v = .ok o) :
    (compare op p v).toFilter = .ok (p.condition (op.word p.type) o) := by
  rw [toFilter, comparisonFilter, if_pos hs, ho]
  rfl

theorem emptinessFilter_eq_ok {p : PropertyRef} {empty : Bool} {j : Json}
    (h : emptinessFilter p empty = .ok j) :
    p.type.hasNullCheck = true ∧
      j = p.condition (if empty then "is_empty" else "is_not_empty") (.bool true) := by
  unfold emptinessFilter at h
  split at h
  next hn => exact ⟨hn, (Except.ok.inj h).symm⟩
  next => simp [PropertyRef.refuseOperator] at h

theorem combineFilter_eq_ok {op : Connective} {parts : List Predicate} {j : Json}
    (h : (combine op parts).toFilter = .ok j) :
    ∃ js, List.Forall₂ (fun p j => p.toFilter = .ok j) parts js ∧
      Filter.ofJson j = match op with
        | .and => .all (Filter.ofJsonItems js)
        | .or => .any (Filter.ofJsonItems js) := by
  unfold toFilter at h
  split at h
  next => simp at h
  next =>
    obtain ⟨js, hjs, rfl⟩ := map_eq_ok.mp h
    refine ⟨js, forall₂_toFilters hjs, ?_⟩
    cases op <;> rfl

end Predicate

namespace Filter

/-- When no part fails, neither does their conjunction, and all have to hold. -/
theorem holdsAll_spec {properties : Properties} {fs : List Filter}
    (h : ∀ f ∈ fs, ∃ b, holds properties f = .ok b) :
    (∃ b, holdsAll properties fs = .ok b) ∧
      (holdsAll properties fs = .ok true ↔ ∀ f ∈ fs, holds properties f = .ok true) := by
  induction fs with
  | nil => simp [holdsAll]
  | cons f fs ih =>
    obtain ⟨⟨b, hb⟩, hfs⟩ := List.forall_mem_cons.mp h
    cases b with
    | true => simpa [holdsAll, hb] using ih hfs
    | false => simp [holdsAll, hb]

theorem holdsAny_spec {properties : Properties} {fs : List Filter}
    (h : ∀ f ∈ fs, ∃ b, holds properties f = .ok b) :
    (∃ b, holdsAny properties fs = .ok b) ∧
      (holdsAny properties fs = .ok true ↔ ∃ f ∈ fs, holds properties f = .ok true) := by
  induction fs with
  | nil => simp [holdsAny]
  | cons f fs ih =>
    obtain ⟨⟨b, hb⟩, hfs⟩ := List.forall_mem_cons.mp h
    cases b with
    | true => simp [holdsAny, hb]
    | false => simpa [holdsAny, hb] using ih hfs

theorem ofJsonItems_eq (js : List Json) : ofJsonItems js = js.map ofJson := by
  induction js with
  | nil => rfl
  | cons j js ih => rw [ofJsonItems, ih, List.map_cons]

end Filter

namespace Predicate

theorem total_of_parts {ps : List Predicate} {js : List Json} {properties : Properties}
    (hjs : List.Forall₂ (fun p j => p.toFilter = .ok j) ps js)
    (h : ∀ p ∈ ps, ∀ {j}, p.toFilter = .ok j → ∃ b, (Filter.ofJson j).holds properties = .ok b) :
    ∀ f ∈ Filter.ofJsonItems js, ∃ b, f.holds properties = .ok b := by
  rw [Filter.ofJsonItems_eq, List.forall_mem_map]
  intro j hj
  obtain ⟨p, hp, hpj⟩ := (exists_mem_of_forall₂ hjs).2 j hj
  exact h p hp hpj

/-- Evaluating the filter of a predicate never fails, whatever the properties hold. -/
theorem filter_total {p : Predicate} {j : Json} (h : p.toFilter = .ok j)
    (properties : Properties) : ∃ b, (Filter.ofJson j).holds properties = .ok b := by
  induction p using Predicate.induction generalizing j with
  | compare op p v =>
    obtain ⟨-, o, -, rfl⟩ := comparisonFilter_eq_ok h
    exact ⟨_, leaf_filter (op.ofName?_word p.type) properties⟩
  | emptiness p empty =>
    obtain ⟨-, rfl⟩ := emptinessFilter_eq_ok h
    cases empty with
    | true => exact ⟨_, leaf_filter (c := .isEmpty) rfl properties⟩
    | false => exact ⟨_, leaf_filter (c := .isNotEmpty) rfl properties⟩
  | combine op parts ih =>
    obtain ⟨js, hjs, hj⟩ := combineFilter_eq_ok h
    have hparts := total_of_parts hjs ih
    rw [hj]
    cases op with
    | and => exact (Filter.holdsAll_spec hparts).1
    | or => exact (Filter.holdsAny_spec hparts).1

/-- The facet that a filter sees of a property is that of its decoded value. -/
theorem facet_decodedValue? {codecs : PropertyRef → Codec} {properties : Properties}
    {q : PropertyRef} (hc : (codecs q).type = q.type)
    (hw : ∀ w, properties.get? q.name = some w → Written q.type w ∧ NumberFits w) :
    (properties.get? q.name).elim .empty (Facet.ofProperty q.type.key) =
        Facet.ofValue? q.type (decodedValue? codecs properties q) ∧
      (q.type.hasNullCheck = true →
        ((Facet.ofValue? q.type (decodedValue? codecs properties q)).isEmpty = true ↔
          ∀ v, decodedValue? codecs properties q = some v → v.IsEmpty)) := by
  cases hget : properties.get? q.name with
  | none =>
    have hnone : decodedValue? codecs properties q = none := by simp [decodedValue?, hget]
    rw [hnone]
    exact ⟨rfl, fun _ => by simp [Facet.ofValue?, Facet.isEmpty]⟩
  | some w =>
    obtain ⟨hwritten, hfits⟩ := hw w hget
    obtain ⟨v, hv⟩ := hwritten.decodes hfits
    have hsome : decodedValue? codecs properties q = some v := by
      have hvalue := hv.value
      rw [← hc, Codec.ofWire_ofType] at hvalue
      simp [decodedValue?, hget, hvalue, Except.toOption]
    rw [hsome]
    exact ⟨hv.facet, fun ht => by simpa [Facet.ofValue?] using hv.isEmpty ht⟩

/-- On properties that a store holds, the filter of a predicate decides what it means. -/
theorem filter_means {p : Predicate} {j : Json} (h : p.toFilter = .ok j)
    {codecs : PropertyRef → Codec} {properties : Properties}
    (hc : ∀ q, (codecs q).type = q.type)
    (hw : ∀ q ∈ p.refs, ∀ w, properties.get? q.name = some w → Written q.type w ∧ NumberFits w) :
    (Filter.ofJson j).holds properties = .ok true ↔
      p.Means (decodedValue? codecs properties) := by
  induction p using Predicate.induction generalizing j with
  | compare op p v =>
    obtain ⟨hs, o, ho, rfl⟩ := comparisonFilter_eq_ok h
    obtain ⟨a, ha, hshows⟩ := PropertyRef.operand_eq_ok ho
    obtain ⟨hfacet, -⟩ := facet_decodedValue? (hc p) (hw p (by simp [refs]))
    rw [leaf_filter (op.ofName?_word p.type), hfacet, Except.ok.injEq, Means]
    exact Comparison.holds_iff hs ha hshows
  | emptiness p empty =>
    obtain ⟨hn, rfl⟩ := emptinessFilter_eq_ok h
    obtain ⟨hfacet, hempty⟩ := facet_decodedValue? (hc p) (hw p (by simp [refs]))
    cases empty with
    | true =>
      rw [if_pos rfl, leaf_filter (c := .isEmpty) rfl, hfacet, Except.ok.injEq, Means]
      exact hempty hn
    | false =>
      rw [if_neg (by decide), leaf_filter (c := .isNotEmpty) rfl, hfacet, Except.ok.injEq, Means,
        ← hempty hn]
      simp [Condition.holds]
  | combine op parts ih =>
    obtain ⟨js, hjs, hj⟩ := combineFilter_eq_ok h
    have htotal := total_of_parts hjs fun p _ j hp => filter_total hp properties
    have hpart : ∀ p ∈ parts, ∀ j, p.toFilter = .ok j →
        ((Filter.ofJson j).holds properties = .ok true ↔
          p.Means (decodedValue? codecs properties)) := fun p hp j hpj =>
      ih p hp hpj fun q hq => hw q (mem_refsOf.mpr ⟨p, hp, hq⟩)
    obtain ⟨hleft, hright⟩ := exists_mem_of_forall₂ hjs
    rw [hj]
    cases op with
    | and =>
      rw [Means, meansAll_iff, Filter.holds, (Filter.holdsAll_spec htotal).2,
        Filter.ofJsonItems_eq, List.forall_mem_map]
      constructor
      · intro hall p hp
        obtain ⟨j, hj, hpj⟩ := hleft p hp
        exact (hpart p hp j hpj).mp (hall j hj)
      · intro hall j hj
        obtain ⟨p, hp, hpj⟩ := hright j hj
        exact (hpart p hp j hpj).mpr (hall p hp)
    | or =>
      rw [Means, meansAny_iff, Filter.holds, (Filter.holdsAny_spec htotal).2,
        Filter.ofJsonItems_eq]
      simp only [List.mem_map, exists_exists_and_eq_and]
      constructor
      · rintro ⟨j, hj, hholds⟩
        obtain ⟨p, hp, hpj⟩ := hright j hj
        exact ⟨p, hp, (hpart p hp j hpj).mp hholds⟩
      · rintro ⟨p, hp, hmeans⟩
        obtain ⟨j, hj, hpj⟩ := hleft p hp
        exact ⟨j, hj, (hpart p hp j hpj).mpr hmeans⟩

/-- The filter of a predicate can be evaluated on every record, and on one whose properties a store
has written it decides what the predicate means of the decoded values. -/
theorem filter_agrees {p : Predicate} {j : Json} (h : p.toFilter = .ok j)
    (properties : Properties) :
    (∃ b, (Filter.ofJson j).holds properties = .ok b) ∧
      ∀ codecs : PropertyRef → Codec, (∀ q, (codecs q).type = q.type) →
        (∀ q ∈ p.refs, ∀ w, properties.get? q.name = some w →
          Written q.type w ∧ NumberFits w) →
        ((Filter.ofJson j).holds properties = .ok true ↔
          p.Means (decodedValue? codecs properties)) :=
  ⟨filter_total h properties, fun _ hc hw => filter_means h hc hw⟩

/-- Done and nobody's. -/
def doneUnowned : Predicate :=
  .combine .and [.compare .eq ⟨"Done", .checkbox⟩ (.bool true), .emptiness ⟨"Owner", .people⟩ true]

theorem filter_agrees_doneUnowned :
    ∃ j, doneUnowned.toFilter = .ok j ∧
      (Filter.ofJson j).holds
        ⟨[("Done", Stamp.tagged (Codec.property .checkbox (.bool true)))]⟩ = .ok true := by
  refine ⟨_, rfl, ((filter_agrees (p := doneUnowned) rfl _).2 (fun q => .ofType q.type)
    (fun q => Codec.type_ofType q.type) ?_).mpr ?_⟩
  · intro q hq w hw
    rcases List.mem_cons.mp hq with rfl | hq
    · obtain rfl := Option.some.inj hw
      refine ⟨.stored (c := .checkbox) (v := .bool true) rfl rfl, fun n hn => ?_⟩
      rw [Stamp.tagged_property] at hn
      simp [Json.get?, KeyMap.get?, KeyMap.insert, KeyMap.lookup_insertEntry_of_ne, KeyMap.lookup,
        PropertyType.key] at hn
    · obtain rfl := List.mem_singleton.mp hq
      simp [KeyMap.get?, KeyMap.lookup] at hw
  · have hdone : decodedValue? (fun q => .ofType q.type)
        ⟨[("Done", Stamp.tagged (Codec.property .checkbox (.bool true)))]⟩
        ⟨"Done", .checkbox⟩ = some (.bool true) := by
      have hread := Codec.ofWire_property (c := .checkbox) (v := .bool true) rfl
      rw [Codec.ofWire_congr (x := Stamp.tagged (Codec.property .checkbox (.bool true)))
        (by simp [Codec.type])] at hread
      exact congrArg Except.toOption hread
    refine ⟨⟨.bool true, .bool true, by rw [hdone]; rfl, rfl, rfl⟩, fun v hv => ?_, trivial⟩
    simp [decodedValue?, KeyMap.get?, KeyMap.lookup] at hv

end Predicate
end DocTables
