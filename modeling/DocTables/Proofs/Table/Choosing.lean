import DocTables.Proofs.Column.Rows
import DocTables.Proofs.Table.Paging

/-!
Choosing rows by the text in a column. A filter is tested on what records hold, whatever that is,
and sees the text that a row shows of it. A row also shows the default of a column for a property
that is missing, which no filter sees.
-/
namespace DocTables
open Outcome Effect

namespace Outcome

/-- Items are chosen before or after they are processed. -/
theorem mapM_filter {ε α β : Type} {f : α → Except ε β} {p : α → Bool} {q : β → Bool}
    (hpq : ∀ x y, f x = .ok y → p x = q y) {xs : List α} {ys : List β}
    (h : xs.mapM f = .ok ys) : (xs.filter p).mapM f = .ok (ys.filter q) := by
  rw [mapM_eq_ok] at h ⊢
  induction h with
  | nil => exact .nil
  | @cons x y xs ys hxy _ ih =>
    rw [List.filter_cons, List.filter_cons, hpq x y hxy]
    split
    · exact .cons hxy ih
    · exact ih

end Outcome

/-- The types whose properties hold one text each, in a form of its own for choices. -/
def PropertyType.isPlainText : PropertyType → Bool
  | url | email | phoneNumber | select | status => true
  | _ => false

section Holding
variable {c : Codec} {col : Column} {p : Json} {v key : String} {properties : Properties}

theorem Facet.same_text (o : Option String) (v : String) :
    (Facet.ofString? o).same (.text v) = true ↔ o = some v := by
  cases o <;> simp [Facet.ofString?, Facet.same]

theorem Value.ofString?_eq_string {o : Option String} :
    Value.ofString? o = .string v ↔ o = some v := by
  cases o <;> simp [Value.ofString?]

/-- A filter sees the text of a property just when it is read as that text. -/
theorem Codec.same_text_iff (hc : c.type.isPlainText = true) (p : Json) (v : String) :
    (Facet.ofProperty c.type.key p).same (.text v) = true ↔ c.ofWire p = .ok (.string v) := by
  cases c with
  | contact kind =>
    have hfacet : Facet.ofProperty (contact kind).type.key p =
        .ofString? ((p.payload? (contact kind).type.key).bind Json.string?) := by
      cases kind <;> rfl
    rw [hfacet, Facet.same_text, ofWire, Except.ok.injEq, Value.ofString?_eq_string]
  | choice kind options =>
    have hfacet : Facet.ofProperty (choice kind options).type.key p =
        .ofString? ((p.payload? (choice kind options).type.key).bind (·.field? "name")) := by
      cases kind <;> rfl
    rw [hfacet, Facet.same_text, ofWire, Except.ok.injEq, Value.ofString?_eq_string]
  | _ => exact absurd hc Bool.false_ne_true

/-- The row shows this text under a key. -/
def DecodedRecord.shows (key v : String) (e : DecodedRecord) : Bool :=
  (e.row.get? key).bind Value.string? == some v

/-- The record has a property for a column, whatever it holds. -/
def DecodedRecord.stores (c : Column) (e : DecodedRecord) : Bool :=
  e.record.properties.contains c.name

theorem shows_iff {e : DecodedRecord} :
    e.shows key v = true ↔ e.row.get? key = some (.string v) := by
  unfold DecodedRecord.shows
  cases hget : e.row.get? key with
  | none => simp
  | some x => cases x <;> simp [Value.string?]

variable {columns : Columns} {e : DecodedRecord} {r : Record}

/-- A row shows the text that the record stores, or else the default. -/
theorem shows_iff_of_decode (hs : columns.Sorted) (hcol : columns.get? key = some col)
    (h : columns.decode r = .ok e) : e.shows key v = true ↔
      match r.properties.get? col.name with
      | some p => col.codec.ofWire p = .ok (.string v)
      | none => col.fallback? = some (.string v) := by
  obtain ⟨o, ho, hrow⟩ := Columns.get?_readRow (Columns.decode_eq_ok h).2 hs hcol
  rw [shows_iff, hrow]
  cases hget : r.properties.get? col.name with
  | some p =>
    obtain ⟨x, hx, rfl⟩ := Columns.decodeField_of_some hget ho
    simp [hx]
  | none =>
    cases hfallback : col.fallback? with
    | some x =>
      simp only [Columns.decodeField, hget, hfallback] at ho
      obtain rfl := Except.ok.inj ho
      simp
    | none =>
      obtain rfl := Columns.decodeField_of_none hget hfallback ho
      by_cases hnull : col.acceptsNull = true <;> simp [hnull]

/-- A filter for a text chooses the records that store it. -/
theorem accepts_iff (hs : columns.Sorted) (hcol : columns.get? key = some col)
    (htype : col.type.isPlainText = true) (h : columns.decode r = .ok e) (v : String) :
    (Filter.ofJson (col.ref.condition "equals" (.string v))).accepts r.properties =
      (e.shows key v && e.stores col) := by
  have hholds : (Filter.ofJson (col.ref.condition "equals" (.string v))).holds r.properties =
      .ok (((r.properties.get? col.name).elim .empty (Facet.ofProperty col.codec.type.key)).same
        (.text v)) := Predicate.leaf_filter (Comparison.ofName?_word .eq col.type) r.properties
  rw [Bool.eq_iff_iff, Bool.and_eq_true, shows_iff_of_decode hs hcol h, DecodedRecord.stores,
    (Columns.decode_eq_ok h).1, KeyMap.contains, Filter.accepts, hholds]
  cases r.properties.get? col.name with
  | some p =>
    refine (Codec.same_text_iff htype p v).trans ?_
    simp
  | none => simp [Except.toOption, Facet.same]

/-- A text that is shown and not stored is the default. -/
theorem fallback_of_shows (hs : columns.Sorted) (hcol : columns.get? key = some col)
    (h : columns.decode r = .ok e) (hshows : e.shows key v = true) (hstores : e.stores col = false) :
    col.fallback? = some (.string v) := by
  have hvalue := (shows_iff_of_decode hs hcol h).mp hshows
  rw [DecodedRecord.stores, (Columns.decode_eq_ok h).1, KeyMap.contains] at hstores
  rwa [Option.isSome_eq_false_iff.mp hstores |> Option.isNone_iff_eq_none.mp] at hvalue

theorem toFilter_equals {p : PropertyRef} (hp : p.type.isPlainText = true) (v : String) :
    (Predicate.compare .eq p (.string v)).toFilter = .ok (p.condition "equals" (.string v)) := by
  obtain ⟨name, t⟩ := p
  cases t with
  | url | email | phoneNumber | select | status => rfl
  | _ => exact nomatch hp

/-- Rows where a column equals a text. -/
def equalling (col : Column) (v : String) : Criteria :=
  { predicate := some (.compare .eq col.ref (.string v)) }

theorem typed_equalling (htype : col.type.isPlainText = true) (v : String) :
    (equalling col v).Typed (some (col.ref.condition "equals" (.string v))) := by
  have hfilter := toFilter_equals (p := col.ref) htype v
  exact ⟨rfl, rfl, by simp [equalling, Criteria.filterJson, hfilter, Except.map]⟩

end Holding

namespace Workspace
variable {t : Table} {w : Workspace} {key : String} {col : Column}

/-- The rows where a column equals a text are those of all rows, in their order, that show the text
and store the property. Only the default of the column is shown without being stored. -/
theorem selectRest_equalling (hreadable : t.Readable (w.memory t.store)) (hs : t.columns.Sorted)
    (hcol : t.columns.get? key = some col) (htype : col.type.isPlainText = true) (v : String)
    (length length' : Option Nat) :
    ∃ rows w₁ w₂, selectRest t { length := length } w = (.ok rows, w₁) ∧
      selectRest t { criteria := equalling col v, length := length' } w =
        (.ok (rows.filter fun e => e.shows key v && e.stores col), w₂) ∧
      (∀ e ∈ rows, e.shows key v = true → e.stores col = false →
        col.fallback? = some (.string v)) ∧
      (col.fallback? ≠ some (.string v) →
        (rows.filter fun e => e.shows key v && e.stores col) = rows.filter (·.shows key v)) := by
  obtain ⟨rows, hrows⟩ := mapM_total hreadable.decodes
  have hall : (t.found { length := length } none (w.memory t.store)).mapM t.columns.decode =
      .ok rows := by
    simpa [Table.found, Memory.found, Criteria.sortsJson] using hrows
  have hsome : (t.found { criteria := equalling col v, length := length' }
      (some (col.ref.condition "equals" (.string v))) (w.memory t.store)).mapM t.columns.decode =
        .ok (rows.filter fun e => e.shows key v && e.stores col) :=
    mapM_filter (fun r e he => accepts_iff hs hcol htype he v) hrows
  have hselected := run_selectRest hreadable ⟨rfl, rfl, rfl⟩ rfl (.inl ⟨rfl, rfl⟩) hall
  have hchosen := run_selectRest hreadable (typed_equalling htype v) rfl (.inl ⟨rfl, rfl⟩) hsome
  have hdefault : ∀ e ∈ rows, e.shows key v = true → e.stores col = false →
      col.fallback? = some (.string v) := by
    intro e he hshows hstores
    obtain ⟨r, -, hr⟩ := (exists_mem_of_forall₂ (mapM_eq_ok.mp hrows)).2 e he
    exact fallback_of_shows hs hcol hr hshows hstores
  refine ⟨rows, _, _, hselected, hchosen, hdefault, fun hne => ?_⟩
  refine List.filter_congr fun e he => ?_
  cases hshows : e.shows key v with
  | false => rfl
  | true =>
    cases hstores : e.stores col with
    | true => rfl
    | false => exact absurd (hdefault e he hshows hstores) hne

/-- A column of stages that are to do unless said otherwise. -/
def stage : Column :=
  { Column.ofType .select "Stage" with mayBeAbsent := true, fallback? := some (.string "Todo") }

def stageTable : Table :=
  ⟨1, "Stages", ⟨[("stage", stage)]⟩, ⟨"new-col-1", "new-ds-1"⟩, "m", 0, {}⟩

/-- A record without a stage and one that is to do. -/
def stageMemory : Memory :=
  let todo := Json.ofFields [("select", .ofFields [("name", .string "Todo")])]
  (Memory.store.runAll [.addCollection "page" "Stages" stageTable.columns.schema,
    .addRecord "new-ds-1" .empty, .addRecord "new-ds-1" (.ofList [("Stage", todo)])] .empty).2

def stageWorkspace : Workspace := empty.setMemory "m" stageMemory

theorem readable_stageTable : stageTable.Readable (stageWorkspace.memory stageTable.store) := by
  refine ⟨⟨_, rfl⟩, rfl, fun r hr => ?_, by decide⟩
  obtain ⟨a, b, hlive, ha, hb⟩ : ∃ a b,
      (stageWorkspace.memory "m").live "new-ds-1" = [a, b] ∧
        (∃ d, stageTable.columns.decode a = .ok d) ∧ ∃ d, stageTable.columns.decode b = .ok d :=
    ⟨_, _, rfl, ⟨_, rfl⟩, _, rfl⟩
  rw [show (stageWorkspace.memory stageTable.store).live stageTable.collection.source = [a, b]
    from hlive] at hr
  rcases List.mem_pair.mp hr with rfl | rfl
  · exact ha
  · exact hb

theorem sorted_stageTable : stageTable.columns.Sorted := by
  unfold KeyMap.Sorted stageTable
  decide

/-- Both records show that they are to do, and the filter chooses the one that stores it. -/
theorem selectRest_equalling_stage :
    ∃ rows chosen w₁ w₂, selectRest stageTable {} stageWorkspace = (.ok rows, w₁) ∧
      rows.map (fun e => (e.record.id, e.shows "stage" "Todo")) =
        [("rec-1", true), ("rec-2", true)] ∧
      selectRest stageTable { criteria := equalling stage "Todo" } stageWorkspace =
        (.ok chosen, w₂) ∧ chosen.map (·.record.id) = ["rec-2"] := by
  have hstage : stageTable.columns.get? "stage" = some stage := rfl
  obtain ⟨rows, w₁, w₂, hall, hchosen, -⟩ :=
    selectRest_equalling readable_stageTable sorted_stageTable hstage rfl "Todo" none none
  obtain ⟨rows', w₁', hall', hshown, hstored⟩ : ∃ rows w₁,
      selectRest stageTable {} stageWorkspace = (.ok rows, w₁) ∧
        rows.map (fun e => (e.record.id, e.shows "stage" "Todo")) =
          [("rec-1", true), ("rec-2", true)] ∧
        (rows.filter fun e => e.shows "stage" "Todo" && e.stores stage).map (·.record.id) =
          ["rec-2"] := ⟨_, _, rfl, rfl, rfl⟩
  obtain rfl : rows = rows' := Except.ok.inj (Prod.mk.inj (hall.symm.trans hall')).1
  exact ⟨rows, _, w₁, w₂, hall, hshown, hchosen, hstored⟩

/-- What the filter chooses are not the rows that show the text. -/
theorem not_forall_selectRest_shows :
    ¬ ∀ (t : Table) (w : Workspace) (key : String) (col : Column) (v : String),
      t.Readable (w.memory t.store) → t.columns.Sorted → t.columns.get? key = some col →
      col.type.isPlainText = true →
      ∃ rows w₁ w₂, selectRest t {} w = (.ok rows, w₁) ∧
        selectRest t { criteria := equalling col v } w =
          (.ok (rows.filter (·.shows key v)), w₂) := by
  intro hall
  obtain ⟨rows, w₁, w₂, hrows, hchosen⟩ := hall stageTable stageWorkspace "stage" stage "Todo"
    readable_stageTable sorted_stageTable rfl rfl
  obtain ⟨rows', w₁', hrows', hlength'⟩ : ∃ rows w₁,
      selectRest stageTable {} stageWorkspace = (.ok rows, w₁) ∧
        (rows.filter (·.shows "stage" "Todo")).length = 2 := ⟨_, _, rfl, rfl⟩
  obtain ⟨chosen, w₂', hchosen', hlength⟩ : ∃ chosen w₂,
      selectRest stageTable { criteria := equalling stage "Todo" } stageWorkspace =
        (.ok chosen, w₂) ∧ chosen.length = 1 := ⟨_, _, rfl, rfl⟩
  obtain rfl : rows = rows' := Except.ok.inj (Prod.mk.inj (hrows.symm.trans hrows')).1
  obtain rfl : rows.filter (·.shows "stage" "Todo") = chosen :=
    Except.ok.inj (Prod.mk.inj (hchosen.symm.trans hchosen')).1
  omega

end Workspace
end DocTables
