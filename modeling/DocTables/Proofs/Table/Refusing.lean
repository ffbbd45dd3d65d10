import DocTables.Proofs.Predicate.Lowering
import DocTables.Relation.Declaration
import DocTables.Table.Write

/-!
What checks refuse. A property without the array of a title is only met in a record that has been
read: no check of a value, a row, a predicate or a link is about it, and a record that cannot be
decoded is refused for nothing else.
-/
namespace DocTables
open Outcome

/-- The failure is about a record that was read, not about something that was asked for. -/
def TableError.ofRecord : TableError → Bool
  | badValue _ .noTitleArray => true
  | _ => false

/-- Fails over nothing but what was asked for. -/
abbrev OfRequest {α : Type} (x : Except TableError α) : Prop :=
  FailsOnly (fun e => e.ofRecord = false) x

namespace CodecFailure

theorem mismatch_ne (expected : Expected) (found : ValueKind) :
    mismatch expected found ≠ .noTitleArray := nofun

theorem rejected_ne (why : Rejection) : rejected why ≠ .noTitleArray := nofun

theorem readOnly_ne (t : PropertyType) : readOnly t ≠ .noTitleArray := nofun

end CodecFailure

namespace Codec
open CodecFailure

/-- Writing a value never fails as reading one does. -/
abbrev OfValue {α : Type} (x : Except CodecFailure α) : Prop := FailsOnly (· ≠ .noTitleArray) x

theorem ofValue_readName (field : String) (expected : Expected) (ifEmpty : Rejection) (v : Value) :
    OfValue (readName field expected ifEmpty v) := by
  unfold readName
  split
  · exact .error (mismatch_ne _ _)
  · split
    · exact .error (rejected_ne _)
    · exact .ok _

theorem ofValue_readChoice (options : Option (List String)) (v : Value) :
    OfValue (Choice.read options v) := by
  apply (ofValue_readName _ _ _ v).bind
  intro name
  unfold Choice.check
  split
  · split
    · exact .ok _
    · exact .error (rejected_ne _)
  · exact .ok _

theorem ofValue_readText (v : Value) : OfValue (readText v) := by
  unfold readText
  split
  · exact .ok _
  · exact .error (mismatch_ne _ _)

theorem ofValue_readContact (kind : ContactKind) (v : Value) : OfValue (readContact kind v) := by
  apply (ofValue_readText v).bind
  intro s
  split
  · exact .error (rejected_ne _)
  · split
    · exact .ok _
    · exact .error (rejected_ne _)

theorem ofValue_readNumber (v : Value) : OfValue (readNumber v) := by
  cases v with
  | int n => exact .ok _
  | float x =>
    refine .elim ?_ x.finite? _
    exact rejected_ne _
  | _ => exact .error (mismatch_ne _ _)

theorem ofValue_checkDate (field : DateField) (s : String) : OfValue (DateSpan.check field s) := by
  unfold DateSpan.check
  split
  · exact .ok _
  · exact .error (rejected_ne _)

theorem ofValue_readDate (v : Value) : OfValue (DateSpan.ofValue v) := by
  have hvalidate : ∀ d : DateSpan, OfValue d.validate := by
    intro d
    apply (ofValue_checkDate .start d.start).bind
    intro _
    have hfinish : OfValue (d.finish.forM (DateSpan.check .finish)) := by
      cases d.finish with
      | none => exact .ok _
      | some s => exact ofValue_checkDate .finish s
    exact hfinish.bind fun _ => .ok d
  cases v with
  | string s => exact hvalidate _
  | map fields =>
    simp only [DateSpan.ofValue]
    split
    · exact .error (rejected_ne _)
    · exact hvalidate _
  | _ => exact .error (mismatch_ne _ _)

theorem ofValue_content (c : Codec) (v : Value) : OfValue (c.content v) := by
  cases c with
  | title =>
    apply (ofValue_readText v).bind
    intro s
    split
    · exact .error (rejected_ne _)
    · exact .ok _
  | richText => exact (ofValue_readText v).map _
  | number _ => exact ofValue_readNumber v
  | checkbox =>
    refine .elim ?_ (v.bool?.map Json.bool) _
    exact mismatch_ne _ _
  | date => exact (ofValue_readDate v).map _
  | contact kind => exact (ofValue_readContact kind v).map _
  | choice _ options => exact (ofValue_readChoice options v).map _
  | multiSelect options =>
    simp only [content]
    split
    · exact .error (mismatch_ne _ _)
    · exact (FailsOnly.mapM (ofValue_readChoice options) _).bind fun names => .ok _
  | people => exact (FailsOnly.mapM (ofValue_readName _ _ _) _).map _
  | files =>
    have hread : ∀ v, OfValue (FileLink.read v) := fun v =>
      (ofValue_readName _ _ _ v).bind fun url => .ok _
    exact (FailsOnly.mapM hread _).map _
  | relation => exact (FailsOnly.mapM (ofValue_readName _ _ _) _).map _
  | _ => exact .error (readOnly_ne _)

/-- A property is refused for one reason only. -/
theorem failsOnly_ofWire (c : Codec) (w : Json) : FailsOnly (· = .noTitleArray) (c.ofWire w) := by
  cases c with
  | title =>
    simp only [ofWire]
    split
    · exact .ok _
    · exact .error rfl
  | _ => exact .ok _

end Codec

theorem CodecFailure.ofRecord_eq_false {e : CodecFailure} (h : e ≠ .noTitleArray) (key : String) :
    (TableError.badValue key e).ofRecord = false := by
  cases e with
  | noTitleArray => exact absurd rfl h
  | _ => rfl

namespace Columns
variable {columns : Columns}

theorem ofRequest_checkKeys (columns : Columns) (row : Row) :
    OfRequest (columns.checkKeys row) := by
  unfold checkKeys
  split
  · exact .error rfl
  · exact .ok ()

theorem ofRequest_column? (columns : Columns) (key : String) : OfRequest (columns.column? key) := by
  unfold column?
  split
  · exact .ok _
  · exact .error rfl

theorem ofRequest_payload (key : String) (c : Column) (v : Value) :
    OfRequest (payload key c v) := by
  unfold payload
  split
  · exact .error rfl
  · split
    · split
      · exact .ok _
      · exact .error rfl
    · have hwire : Codec.OfValue (c.codec.toWire v) := (Codec.ofValue_content c.codec v).map _
      exact hwire.mapError fun e he => CodecFailure.ofRecord_eq_false he key

theorem ofRequest_inserted (key : String) (c : Column) (row : Row) :
    OfRequest (inserted key c row) := by
  unfold inserted
  split
  · exact .ok _
  · split
    · exact .ok _
    · split
      · exact .ok _
      · split
        · exact .ok _
        · exact .error rfl

theorem ofRequest_insertProperties (columns : Columns) (row : Row) :
    OfRequest (columns.insertProperties row) := by
  have hfield : ∀ e, OfRequest (insertField row e) := by
    intro e
    apply (ofRequest_inserted e.1 e.2 row).bind
    intro o
    cases o with
    | none => exact .ok none
    | some v => exact (ofRequest_payload e.1 e.2 v).bind fun j => .ok _
  exact (ofRequest_checkKeys columns row).bind fun _ =>
    (FailsOnly.mapM hfield _).bind fun _ => .ok _

theorem ofRequest_updateProperties (columns : Columns) (patch : Row) :
    OfRequest (columns.updateProperties patch) := by
  have hfield : ∀ e, OfRequest (updateField columns e) := fun e =>
    (ofRequest_column? columns e.1).bind fun c =>
      (ofRequest_payload e.1 c e.2).bind fun j => .ok _
  apply (ofRequest_checkKeys columns patch).bind
  intro _
  apply (FailsOnly.mapM hfield _).bind
  intro entries
  split
  · exact .error rfl
  · exact .ok _

theorem ofRecord_of_decode {r : Record} {e : TableError} (h : columns.decode r = .error e) :
    e.ofRecord = true := by
  have hfield : ∀ field, FailsOnly (fun e => e.ofRecord = true)
      (decodeField r.properties field) := by
    intro field
    unfold decodeField
    split
    next w _ =>
      have hread : FailsOnly (fun e : TableError => e.ofRecord = true)
          ((field.2.codec.ofWire w).mapError (TableError.badValue field.1)) := by
        refine (Codec.failsOnly_ofWire field.2.codec w).mapError fun e he => ?_
        rw [he]
        rfl
      exact hread.map _
    · split
      · exact .ok _
      · exact .ok _
  have hdecode : FailsOnly (fun e => e.ofRecord = true) (columns.decode r) :=
    ((FailsOnly.mapM hfield _).bind fun _ => .ok _).bind fun _ => .ok _
  exact hdecode e h

end Columns

namespace PropertyRef

theorem ofRequest_operand (p : PropertyRef) (v : Value) : OfRequest (p.operand v) := by
  refine (p.names_operand v).mono ?_
  rintro _ ⟨why, rfl⟩
  rfl

end PropertyRef

namespace Predicate

theorem ofRequest_comparisonFilter (op : Comparison) (p : PropertyRef) (v : Value) :
    OfRequest (comparisonFilter op p v) := by
  unfold comparisonFilter
  split
  · exact (p.ofRequest_operand v).map _
  · exact .error rfl

theorem ofRequest_emptinessFilter (p : PropertyRef) (empty : Bool) :
    OfRequest (emptinessFilter p empty) := by
  unfold emptinessFilter
  split
  · exact .ok _
  · exact .error rfl

mutual

theorem ofRequest_toFilter : (p : Predicate) → OfRequest p.toFilter
  | .compare op p v => ofRequest_comparisonFilter op p v
  | .emptiness p empty => ofRequest_emptinessFilter p empty
  | .combine op parts => by
    unfold toFilter
    split
    · exact .error rfl
    · exact (ofRequest_toFilters parts).map _

theorem ofRequest_toFilters : (ps : List Predicate) → OfRequest (toFilters ps)
  | [] => .ok []
  | p :: ps => (ofRequest_toFilter p).bind fun _ => (ofRequest_toFilters ps).bind fun _ => .ok _

end

end Predicate

theorem Criteria.ofRequest_query (c : Criteria) (limit : Nat) (cursor : Option String) :
    OfRequest (c.query limit cursor) := by
  have hfilter : OfRequest c.filterJson := by
    unfold filterJson
    split
    · exact .ok _
    · exact (Predicate.ofRequest_toFilter _).map _
    · exact .ok _
  exact hfilter.bind fun _ => .ok _

namespace Link

theorem ofRequest_updates (links : List Link) : OfRequest (updates links) := by
  have hcolumn : ∀ l : Link, OfRequest l.column := by
    intro l
    unfold column
    split
    · apply (l.source.columns.ofRequest_column? l.key).bind
      intro c
      split
      · exact .ok c
      · exact .error rfl
    · exact .error rfl
  have hdeclaration : ∀ l : Link, OfRequest l.declaration := fun l =>
    (hcolumn l).bind fun c => .ok _
  exact (FailsOnly.mapM hdeclaration links).bind fun _ => .ok _

end Link
end DocTables
