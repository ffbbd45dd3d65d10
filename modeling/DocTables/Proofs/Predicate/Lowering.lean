import DocTables.Proofs.Predicate.Agreement

/-!
Predicates have a filter when each of their nodes is legal by itself. The filter then has the shape
of the predicate, and otherwise the first node that is not legal decides the error.
-/
namespace DocTables
open Outcome

namespace PropertyRef

/-- The error names the property that the operand was meant for. -/
def Names (p : PropertyRef) (e : TableError) : Prop := ∃ why, e = .operandRefused p.name why

theorem names_elim {α : Type} (p : PropertyRef) (why : OperandError) (o : Option α)
    (f : α → Json) : FailsOnly p.Names (o.elim (p.refuse why) fun a => .ok (f a)) :=
  FailsOnly.elim ⟨why, rfl⟩ o f

theorem names_operand (p : PropertyRef) (v : Value) : FailsOnly p.Names (p.operand v) := by
  obtain ⟨name, t⟩ := p
  cases t with
  | number =>
    cases v with
    | int n => exact .ok _
    | float x => exact names_elim _ _ x.finite? _
    | _ => exact .error ⟨_, rfl⟩
  | checkbox => exact names_elim _ _ v.bool? _
  | uniqueId => exact names_elim _ _ (idNumber? v) _
  | files => exact .error ⟨_, rfl⟩
  | relation => exact .error ⟨_, rfl⟩
  | _ => exact names_elim _ _ _ _

end PropertyRef

namespace Predicate

mutual

/-- A predicate followed by all that it is made of: from the left, each before its own parts. -/
def nodes : Predicate → List Predicate
  | .combine op parts => .combine op parts :: nodesOf parts
  | p => [p]

def nodesOf : List Predicate → List Predicate
  | [] => []
  | p :: ps => p.nodes ++ nodesOf ps

end

/-- The predicate can be asked as far as its own operator goes, whatever its parts are. -/
inductive Legal : Predicate → Prop
  | compare {op p v operand} (supported : op.supports p.type = true)
      (comparable : p.operand v = .ok operand) : Legal (.compare op p v)
  | emptiness {p empty} (supported : p.type.hasNullCheck = true) : Legal (.emptiness p empty)
  | combine {op parts} (parted : parts ≠ []) : Legal (.combine op parts)

/-- What a predicate is refused for by itself: an operator before its operand. -/
inductive Refused : Predicate → TableError → Prop
  | operator {op p v} (unsupported : op.supports p.type = false) :
      Refused (.compare op p v) (.operatorRefused op.name p.name p.type)
  | operand {op p v why} (supported : op.supports p.type = true)
      (incomparable : p.operand v = .error (.operandRefused p.name why)) :
      Refused (.compare op p v) (.operandRefused p.name why)
  | emptiness {p empty} (unsupported : p.type.hasNullCheck = false) :
      Refused (.emptiness p empty)
        (.operatorRefused (if empty then "is_null" else "is_not_null") p.name p.type)
  | combine {op} : Refused (.combine op []) (.noParts op.name)

/-- The filter of a predicate by its shape: leaves become conditions, and a compound the list of
the filters of its parts. -/
inductive Lowers : Predicate → Json → Prop
  | compare {op p v operand} (supported : op.supports p.type = true)
      (comparable : p.operand v = .ok operand) :
      Lowers (.compare op p v) (.ofFields [("property", .string p.name),
        (p.type.key, .ofFields [(op.word p.type, operand)])])
  | emptiness {p empty} (supported : p.type.hasNullCheck = true) :
      Lowers (.emptiness p empty) (.ofFields [("property", .string p.name),
        (p.type.key, .ofFields [(if empty then "is_empty" else "is_not_empty", .bool true)])])
  | combine {op parts filters} (parted : parts ≠ []) (lowered : List.Forall₂ Lowers parts filters) :
      Lowers (.combine op parts) (.ofFields [(op.name, .array filters)])

/-- The error of a node by itself, if it has one. -/
def refusal? : Predicate → Option TableError
  | .combine op parts => if parts.isEmpty then some (.noParts op.name) else none
  | p => failure? p.toFilter

variable {p : Predicate} {ps : List Predicate} {e : TableError} {j : Json}

theorem toFilter_emptiness {q : PropertyRef} {empty : Bool} (hq : q.type.hasNullCheck = true) :
    (emptiness q empty).toFilter =
      .ok (q.condition (if empty then "is_empty" else "is_not_empty") (.bool true)) := by
  rw [toFilter, emptinessFilter, if_pos hq]

theorem toFilters_eq_mapM (ps : List Predicate) : toFilters ps = ps.mapM toFilter := by
  induction ps with
  | nil => rfl
  | cons p ps ih => rw [toFilters, ih, List.mapM_cons]

theorem toFilter_combine {op : Connective} (hps : ps ≠ []) :
    (combine op ps).toFilter =
      (ps.mapM toFilter).map fun js => .ofFields [(op.name, .array js)] := by
  rw [toFilter, if_neg (by simpa using hps), toFilters_eq_mapM]

theorem Legal.refusal? (h : p.Legal) : p.refusal? = none := by
  cases h with
  | compare supported comparable =>
    exact failure?_eq_none.mpr ⟨_, toFilter_compare supported comparable⟩
  | emptiness supported => exact failure?_eq_none.mpr ⟨_, toFilter_emptiness supported⟩
  | combine parted => simpa [Predicate.refusal?] using parted

theorem Refused.refusal? (h : p.Refused e) : p.refusal? = some e := by
  have hfails : p.toFilter = .error e → failure? p.toFilter = some e := failure?_eq_some.mpr
  cases h with
  | operator unsupported =>
    apply hfails
    rw [toFilter, comparisonFilter, if_neg (by simp [unsupported])]
    rfl
  | operand supported incomparable =>
    apply hfails
    rw [toFilter, comparisonFilter, if_pos supported, incomparable]
    rfl
  | emptiness unsupported =>
    apply hfails
    rw [toFilter, emptinessFilter, if_neg (by simp [unsupported])]
    rfl
  | combine => rfl

theorem legal_or_refused (p : Predicate) : p.Legal ∨ ∃ e, p.Refused e := by
  cases p with
  | compare op p v =>
    cases hop : op.supports p.type with
    | false => exact .inr ⟨_, .operator hop⟩
    | true =>
      cases ho : p.operand v with
      | ok o => exact .inl (.compare hop ho)
      | error e =>
        obtain ⟨why, rfl⟩ := p.names_operand v e ho
        exact .inr ⟨_, .operand hop ho⟩
  | emptiness p empty =>
    cases hp : p.type.hasNullCheck with
    | false => exact .inr ⟨_, .emptiness hp⟩
    | true => exact .inl (.emptiness hp)
  | combine op parts =>
    cases parts with
    | nil => exact .inr ⟨_, .combine⟩
    | cons p ps => exact .inl (.combine (List.cons_ne_nil p ps))

theorem refusal?_eq_none : p.refusal? = none ↔ p.Legal :=
  (settled p.legal_or_refused Legal.refusal? fun _ => Refused.refusal?).1

theorem refusal?_eq_some : p.refusal? = some e ↔ p.Refused e :=
  (settled p.legal_or_refused Legal.refusal? fun _ => Refused.refusal?).2 e

/-- Nodes one after another fail as the first of the predicates that they belong to. -/
theorem findSome?_nodesOf
    (h : ∀ p ∈ ps, failure? p.toFilter = p.nodes.findSome? Predicate.refusal?) :
    (nodesOf ps).findSome? Predicate.refusal? = ps.findSome? fun p => failure? p.toFilter := by
  induction ps with
  | nil => rfl
  | cons p ps ih =>
    obtain ⟨hp, hps⟩ := List.forall_mem_cons.mp h
    rw [nodesOf, List.findSome?_append, List.findSome?_cons, hp, ih hps]
    cases p.nodes.findSome? Predicate.refusal? <;> rfl

/-- A predicate fails as the first of its nodes that is refused by itself. -/
theorem failure?_toFilter (p : Predicate) :
    failure? p.toFilter = p.nodes.findSome? Predicate.refusal? := by
  induction p using Predicate.induction with
  | compare op p v => simp [nodes, Predicate.refusal?]
  | emptiness p empty => simp [nodes, Predicate.refusal?]
  | combine op parts ih =>
    by_cases hparts : parts = []
    · subst hparts
      rfl
    · have hself : (combine op parts).refusal? = none := refusal?_eq_none.mpr (.combine hparts)
      rw [nodes, List.findSome?_cons, hself, findSome?_nodesOf ih, toFilter_combine hparts,
        failure?_map, failure?_mapM]

theorem forall₂_lowers {js : List Json} (h : ∀ p ∈ ps, ∀ {j}, p.toFilter = .ok j ↔ p.Lowers j) :
    List.Forall₂ (fun p j => p.toFilter = .ok j) ps js ↔ List.Forall₂ Lowers ps js := by
  induction ps generalizing js with
  | nil => simp only [List.forall₂_nil_left_iff]
  | cons p ps ih =>
    obtain ⟨hp, hps⟩ := List.forall_mem_cons.mp h
    simp only [List.forall₂_cons_left_iff, hp, ih hps]

/-- A predicate that has a filter has the one of its shape. -/
theorem toFilter_eq_ok : p.toFilter = .ok j ↔ p.Lowers j := by
  induction p using Predicate.induction generalizing j with
  | compare op p v =>
    constructor
    · intro h
      obtain ⟨hop, o, ho, rfl⟩ := comparisonFilter_eq_ok h
      exact .compare hop ho
    · rintro (⟨hop, ho⟩ | _ | _)
      exact toFilter_compare hop ho
  | emptiness p empty =>
    constructor
    · intro h
      obtain ⟨hp, rfl⟩ := emptinessFilter_eq_ok h
      exact .emptiness hp
    · rintro (_ | hp | _)
      exact toFilter_emptiness hp
  | combine op parts ih =>
    constructor
    · intro h
      have hparts : parts ≠ [] := by
        rintro rfl
        exact nomatch h
      rw [toFilter_combine hparts] at h
      obtain ⟨js, hjs, rfl⟩ := map_eq_ok.mp h
      exact .combine hparts ((forall₂_lowers ih).mp (mapM_eq_ok.mp hjs))
    · rintro (_ | _ | ⟨hparts, hjs⟩)
      rw [toFilter_combine hparts]
      exact map_eq_ok.mpr ⟨_, mapM_eq_ok.mpr ((forall₂_lowers ih).mpr hjs), rfl⟩

/-- A predicate has a filter if and only if all of its nodes are legal, and the filter has the shape
of the predicate. Otherwise the error is that of its first node that is not legal. -/
theorem toFilter_settles (p : Predicate) :
    ((∃ j, p.toFilter = .ok j) ↔ ∀ q ∈ p.nodes, q.Legal) ∧
      (∀ j, p.toFilter = .ok j ↔ p.Lowers j) ∧
      ∀ e, p.toFilter = .error e ↔ ∃ before q after, p.nodes = before ++ q :: after ∧
        (∀ r ∈ before, r.Legal) ∧ q.Refused e := by
  refine ⟨?_, fun j => toFilter_eq_ok, fun e => ?_⟩
  · rw [← failure?_eq_none, failure?_toFilter, List.findSome?_eq_none_iff]
    simp only [refusal?_eq_none]
  · rw [← failure?_eq_some, failure?_toFilter, List.findSome?_eq_some_iff]
    simp only [refusal?_eq_none, refusal?_eq_some, and_comm]

example : toFilter (.combine .and [.compare .eq ⟨"Done", .checkbox⟩ (.bool true),
    .combine .or [], .compare .contains ⟨"Done", .checkbox⟩ .null]) = .error (.noParts "or") := rfl

end Predicate
end DocTables
