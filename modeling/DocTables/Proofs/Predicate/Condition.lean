import DocTables.Predicate.Filter
import DocTables.Proofs.Binary64
import DocTables.Proofs.Store.Written
import DocTables.Store.Filter

/-!
Conditions agree with comparisons: the condition of a comparison is read back as a test of its
property, and on the facet of a value it decides what the comparison says of the value.
-/
namespace DocTables
open Outcome

namespace Facet

theorem compareText_eq {s t : String} : compareText s t = .eq ↔ s = t := by
  unfold compareText
  split
  next h => simp [h.ne]
  next => split <;> simp_all

theorem compareText_lt {s t : String} : compareText s t = .lt ↔ s < t := by
  unfold compareText
  split
  next h => simp [h]
  next h => split <;> simp [h]

theorem compareText_gt {s t : String} : compareText s t = .gt ↔ t < s := by
  unfold compareText
  split
  next h => exact iff_of_false nofun (lt_asymm h)
  next h =>
    split
    next he => simp [he]
    next he => simp [lt_of_le_of_ne (not_lt.mp h) (Ne.symm he)]

end Facet

namespace Scalar

def facet (a : Scalar) : Facet := Facet.ofScalar? (some a)

theorem same_facet {a b : Scalar} : a.facet.same b.facet = true ↔ a.Equal b := by
  cases a <;> cases b <;> simp [facet, Facet.ofScalar?, Facet.same, Equal]

theorem compare?_eq {a b : Scalar} : a.facet.compare? b.facet = some .eq ↔ a.Equal b := by
  cases a <;> cases b <;>
    simp [facet, Facet.ofScalar?, Facet.compare?, Equal, Facet.compareText_eq, Binary64.numEq]
  case bool.bool a b => cases a <;> cases b <;> decide

theorem compare?_lt {a b : Scalar} : a.facet.compare? b.facet = some .lt ↔ a.Less b := by
  cases a <;> cases b <;>
    simp [facet, Facet.ofScalar?, Facet.compare?, Less, Facet.compareText_lt]
  case bool.bool a b => cases a <;> cases b <;> decide

theorem compare?_gt {a b : Scalar} : a.facet.compare? b.facet = some .gt ↔ b.Less a := by
  cases a <;> cases b <;>
    simp [facet, Facet.ofScalar?, Facet.compare?, Less, Facet.compareText_gt,
      Binary64.compare?_gt]
  case bool.bool a b => cases a <;> cases b <;> decide

end Scalar

namespace Text

theorem occursIn_iff {needle cs : List Char} : occursIn needle cs = true ↔ needle <:+: cs := by
  induction cs with
  | nil => simp [occursIn]
  | cons c cs ih => simp [occursIn, ih, List.infix_cons_iff]

end Text

namespace PropertyRef

theorem textOr_eq_ok {p : PropertyRef} {why : OperandError} {text : Option String} {j : Json} :
    p.textOr why text = .ok j ↔ ∃ s, text = some s ∧ j = .string s := by
  cases text <;> simp [textOr, refuse, eq_comm]

theorem idNumber?_eq_some {v : Value} {n : Int64} (h : idNumber? v = some n) :
    (v.string?.elim v fun s => .string (Text.trim s)).shownNumber? = some n := by
  cases v with
  | string s =>
    rw [idNumber?, Option.bind_eq_some_iff] at h
    obtain ⟨k, hk, hn⟩ := h
    have hdigits :
        Text.decimal? ((Text.trim s).toList.reverse.takeWhile (· != '-')).reverse = some k := by
      unfold Text.numberedId? at hk
      rw [List.span_eq_takeWhile_dropWhile] at hk
      split at hk
      next number c front hspan =>
        obtain ⟨rfl, -⟩ := Prod.mk.inj hspan
        split at hk
        · exact hk
        · simp at hk
      next => simp at hk
    simp only [Value.string?_string, Option.elim_some, Value.shownNumber?, hdigits]
    exact hn
  | _ => exact h

/-- The operand that a store gets shows the scalar of the operand. -/
def Shows (j : Json) (a : Scalar) : Prop :=
  Facet.ofOperand j = a.facet ∧ ∀ s, a = .text s ↔ j.string? = some s

theorem shows_text (s : String) : Shows (.string s) (.text s) :=
  ⟨rfl, fun t => by simp⟩

theorem operand_eq_ok {p : PropertyRef} {v : Value} {j : Json} (h : p.operand v = .ok j) :
    ∃ a, v.operandScalar? p.type = some a ∧ Shows j a := by
  obtain ⟨name, t⟩ := p
  cases t with
  | number =>
    cases v with
    | int n =>
      obtain rfl := Except.ok.inj h
      exact ⟨_, rfl, rfl, by simp [Json.string?]⟩
    | float x =>
      simp only [operand, Binary64.finite?] at h
      split at h
      · obtain rfl := Except.ok.inj h
        exact ⟨_, rfl, rfl, by simp [Json.string?]⟩
      · simp [refuse] at h
    | _ => simp [operand, refuse] at h
  | checkbox =>
    cases v with
    | bool b =>
      obtain rfl := Except.ok.inj h
      exact ⟨_, rfl, rfl, by simp [Json.string?]⟩
    | _ => simp [operand, refuse, Value.bool?] at h
  | uniqueId =>
    cases hn : idNumber? v with
    | none => simp [operand, refuse, hn] at h
    | some n =>
      obtain rfl : Json.int n.toInt = j := by simpa [operand, hn] using h
      exact ⟨.number (.ofInt n.toInt), by simp [Value.operandScalar?, idNumber?_eq_some hn], rfl,
        by simp [Json.string?]⟩
  | files => simp [operand, refuse] at h
  | relation => simp [operand, refuse] at h
  | _ =>
    obtain ⟨s, hs, rfl⟩ := textOr_eq_ok.mp h
    exact ⟨.text s, by simp [Value.operandScalar?, hs], shows_text s⟩

end PropertyRef

namespace Filter

theorem branches_eq_nil {es : List (String × Json)} (h : ∀ e ∈ es, e.2.array? = none) :
    branches es = [] := by
  induction es with
  | nil => rfl
  | cons e es ih =>
    obtain ⟨k, j⟩ := e
    have hj : j.array? = none := h (k, j) List.mem_cons_self
    have hes := ih fun e he => h e (List.mem_cons_of_mem _ he)
    cases j with
    | array items => simp [Json.array?] at hj
    | _ => exact hes

end Filter

namespace PropertyRef

/-- The fields of a condition, whatever order their names put them in. -/
theorem mem_condition {p : PropertyRef} {word : String} {operand : Json} {e : String × Json}
    (h : e ∈ (KeyMap.ofList [("property", Json.string p.name),
      (p.type.key, .ofFields [(word, operand)])]).entries) :
    e = ("property", .string p.name) ∨ e = (p.type.key, .ofFields [(word, operand)]) := by
  rcases KeyMap.mem_insertEntry h with h | h
  · exact .inr h
  · exact .inl (List.mem_singleton.mp h)

theorem declaredType?_condition (p : PropertyRef) (word : String) (operand : Json) :
    (p.condition word operand).declaredType? = some p.type.key := by
  have hne : p.type.key ≠ "property" := by cases p.type <;> decide
  have htype : (p.condition word operand).get? "type" = none := by
    simp [condition, KeyMap.lookup, p.type.key_ne_type]
  have hkey : (p.condition word operand).get? p.type.key = some (.ofFields [(word, operand)]) := by
    simp [condition, KeyMap.lookup]
  unfold condition Json.ofFields at *
  simp only [Json.get?] at htype hkey
  simp only [Json.declaredType?, htype, Option.bind_none]
  cases hfind : (KeyMap.ofList [("property", Json.string p.name),
      (p.type.key, .object (KeyMap.ofList [(word, operand)]))]).keys.find?
      fun k => (PropertyType.ofKey? k).isSome with
  | none =>
    have hmem := List.mem_map_of_mem (f := Prod.fst) (KeyMap.mem_of_get? hkey)
    have hno := List.find?_eq_none.mp hfind p.type.key hmem
    simp [PropertyType.ofKey?_key] at hno
  | some k =>
    have hsome := List.find?_some hfind
    obtain ⟨e, he, rfl⟩ := List.mem_map.mp (List.mem_of_find?_eq_some hfind)
    rcases mem_condition he with rfl | rfl
    · have hproperty : PropertyType.ofKey? "property" = none := by decide
      simp [hproperty] at hsome
    · rfl

/-- A condition is read back as a test of its property. -/
theorem ofJson_condition (p : PropertyRef) (word : String) (operand : Json) :
    Filter.ofJson (p.condition word operand) =
      .test (.ok ⟨p.name, p.type.key, [(word, operand)]⟩) := by
  have hne : p.type.key ≠ "property" := by cases p.type <;> decide
  have htest : PropertyTest.ofJson (p.condition word operand) =
      .ok ⟨p.name, p.type.key, [(word, operand)]⟩ := by
    have hname : (p.condition word operand).field? "property" = some p.name := by
      simp [condition, KeyMap.lookup, hne]
    have hkey : (p.condition word operand).get? p.type.key =
        some (.ofFields [(word, operand)]) := by
      simp [condition, KeyMap.lookup]
    simp only [PropertyTest.ofJson, hname, declaredType?_condition, hkey]
    rfl
  rw [← htest, condition, Json.ofFields]
  have hbranches : Filter.branches (KeyMap.ofList [("property", Json.string p.name),
      (p.type.key, .ofFields [(word, operand)])]).entries = [] := by
    refine Filter.branches_eq_nil fun e he => ?_
    rcases mem_condition he with rfl | rfl <;> rfl
  simp only [Filter.ofJson, hbranches, KeyMap.lookup]

end PropertyRef

namespace Facet

theorem same_ofScalar? {o : Option Scalar} {b : Scalar} :
    (ofScalar? o).same b.facet = true ↔ ∃ a, o = some a ∧ a.Equal b := by
  cases o with
  | none => cases b <;> simp [ofScalar?, same, Scalar.facet]
  | some a =>
    simp only [Option.some.injEq, exists_eq_left']
    exact Scalar.same_facet

theorem compare?_ofScalar? {o : Option Scalar} {b : Scalar} {r : Ordering} :
    (ofScalar? o).compare? b.facet = some r ↔
      ∃ a, o = some a ∧ a.facet.compare? b.facet = some r := by
  cases o with
  | none => cases b <;> simp [ofScalar?, compare?, Scalar.facet]
  | some a => simp [Scalar.facet]

/-- The facet of a value that may be absent. -/
def ofValue? (t : PropertyType) (v : Option Value) : Facet := v.elim empty (ofValue t)

/-- The types whose values are not lists. -/
def IsScalar (t : PropertyType) : Prop := ∀ v : Value, ofValue t v = ofScalar? (v.scalar? t)

theorem IsScalar.ofValue? {t : PropertyType} (h : IsScalar t) (v : Option Value) :
    Facet.ofValue? t v = ofScalar? (v.bind (·.scalar? t)) := by
  cases v with
  | none => rfl
  | some v => exact h v

end Facet

namespace Comparison

/-- The condition that decides a comparison. -/
def condition : Comparison → Condition
  | eq => .equals
  | neq => .doesNotEqual
  | contains => .contains
  | gt => .greater
  | gte => .greaterOrEqual
  | lt => .less
  | lte => .lessOrEqual

theorem ofName?_word (op : Comparison) (t : PropertyType) :
    Condition.ofName? (op.word t) = some op.condition := by
  cases op with
  | eq => rfl
  | neq => rfl
  | contains => rfl
  | gt => rw [word]; split <;> rfl
  | gte => rw [word]; split <;> rfl
  | lt => rw [word]; split <;> rfl
  | lte => rw [word]; split <;> rfl

theorem isScalar_of_supports {op : Comparison} {t : PropertyType} (h : op.supports t = true)
    (hop : op ≠ contains) : Facet.IsScalar t := by
  intro v
  cases op with
  | contains => exact absurd rfl hop
  | _ => cases t <;> first | rfl | exact absurd h (by decide)

theorem related_iff {r : Scalar → Scalar → Prop} {t : PropertyType} {v : Option Value}
    {operand : Value} {b : Scalar} (hb : operand.operandScalar? t = some b) :
    Related r t v operand ↔ ∃ a, v.bind (·.scalar? t) = some a ∧ r a b := by
  simp [Related, hb]

/-- What is looked for is a text. -/
theorem operand_of_contains {t : PropertyType} {operand : Value} {b : Scalar}
    (ht : contains.supports t = true) (hb : operand.operandScalar? t = some b) :
    ∃ s, b = .text s := by
  cases t <;> first
    | exact absurd ht (by decide)
    | obtain ⟨s, -, rfl⟩ := Option.map_eq_some_iff.mp hb
      exact ⟨s, rfl⟩

/-- A text is looked for in the text or the list of a value. -/
theorem includes_iff {t : PropertyType} {v : Option Value} {j : Json} {s : String}
    (ht : contains.supports t = true) (hj : j.string? = some s) :
    Condition.includes (Facet.ofValue? t v) j = true ↔ ∃ u, v = some u ∧ u.Contains t s := by
  cases v with
  | none => simp [Facet.ofValue?, Condition.includes, hj]
  | some v =>
    simp only [Facet.ofValue?, Option.elim_some, Option.some.injEq, exists_eq_left',
      Condition.includes, hj]
    cases t with
    | title =>
      cases v <;>
        simp [Facet.ofValue, Value.scalar?, Value.string?, Facet.ofScalar?, Value.Contains,
          Text.containsFolded, Text.occursIn_iff]
    | richText =>
      cases v <;>
        simp [Facet.ofValue, Value.scalar?, Value.string?, Facet.ofScalar?, Value.Contains,
          Text.containsFolded, Text.occursIn_iff]
    | multiSelect =>
      cases v <;> simp [Facet.ofValue, Value.array?, Value.Contains, Value.string?_eq_some]
    | people =>
      cases v <;> simp [Facet.ofValue, Value.array?, Value.Contains, Value.string?_eq_some]
    | createdBy => cases v <;> simp [Facet.ofValue, Value.string?, Value.Contains, eq_comm]
    | lastEditedBy => cases v <;> simp [Facet.ofValue, Value.string?, Value.Contains, eq_comm]
    | _ => exact absurd ht (by decide)

theorem compared_iff {t : PropertyType} {v : Option Value} {b : Scalar} {r : Ordering}
    (h : Facet.IsScalar t) :
    ((Facet.ofValue? t v).compare? b.facet == some r) = true ↔
      ∃ a, v.bind (·.scalar? t) = some a ∧ a.facet.compare? b.facet = some r := by
  rw [beq_iff_eq, h.ofValue?, Facet.compare?_ofScalar?]

/-- A condition decides what its comparison means. -/
theorem holds_iff {op : Comparison} {t : PropertyType} {v : Option Value} {operand : Value}
    {j : Json} {b : Scalar} (ht : op.supports t = true) (hb : operand.operandScalar? t = some b)
    (hj : PropertyRef.Shows j b) :
    op.condition.holds (Facet.ofValue? t v) j = true ↔ op.Holds t v operand := by
  obtain ⟨hfacet, htext⟩ := hj
  cases op with
  | contains =>
    obtain ⟨s, rfl⟩ := operand_of_contains ht hb
    rw [condition, Condition.holds, includes_iff ht ((htext s).mp rfl)]
    simp [Holds, hb]
  | eq =>
    rw [condition, Condition.holds, hfacet, (isScalar_of_supports ht (by decide)).ofValue?,
      Facet.same_ofScalar?, Holds, related_iff hb]
  | neq =>
    rw [condition, Condition.holds, hfacet, (isScalar_of_supports ht (by decide)).ofValue?,
      Bool.not_eq_true', ← Bool.not_eq_true, Facet.same_ofScalar?, Holds, related_iff hb]
  | gt =>
    rw [condition, Condition.holds, hfacet, compared_iff (isScalar_of_supports ht (by decide))]
    simp only [Scalar.compare?_gt, Holds, related_iff hb]
  | gte =>
    simp only [condition, Condition.holds, hfacet, Bool.or_eq_true,
      compared_iff (isScalar_of_supports ht (by decide))]
    simp only [Scalar.compare?_gt, Scalar.compare?_eq, Holds, related_iff hb, and_or_left,
      exists_or]
  | lt =>
    rw [condition, Condition.holds, hfacet, compared_iff (isScalar_of_supports ht (by decide))]
    simp only [Scalar.compare?_lt, Holds, related_iff hb]
  | lte =>
    simp only [condition, Condition.holds, hfacet, Bool.or_eq_true,
      compared_iff (isScalar_of_supports ht (by decide))]
    simp only [Scalar.compare?_lt, Scalar.compare?_eq, Holds, related_iff hb, and_or_left,
      exists_or]

end Comparison

end DocTables
