import DocTables.Proofs.Column.Payloads

/-!
Which rows can be inserted, and as what: a row is accepted when each of its keys has a column and
every column is settled by it. Otherwise the smallest key without a column decides the error, and
then the first column in key order that the row does not suit.
-/
namespace DocTables
open Outcome

namespace Column

/-- The column can be set to a value, which is stored as the payload. -/
inductive Takes (c : Column) : Value → Json → Prop
  | null (writable : c.isMaintained = false) (nullable : c.acceptsNull = true) :
      Takes c .null c.codec.empty
  | value {v j} (writable : c.isMaintained = false) (given : v ≠ .null)
      (written : c.codec.toWire v = .ok j) : Takes c v j

/-- Why the column under a key cannot be set to a value. -/
inductive Rejects (c : Column) (key : String) : Value → TableError → Prop
  | maintained {v} (maintained : c.isMaintained = true) : Rejects c key v (.maintained key)
  | null (writable : c.isMaintained = false) (required : c.acceptsNull = false) :
      Rejects c key .null (.nullRefused key)
  | value {v why} (writable : c.isMaintained = false) (given : v ≠ .null)
      (refused : c.codec.toWire v = .error why) : Rejects c key v (.badValue key why)

/-- What a new record gets in the column for the value in its row, if there is one. -/
inductive Inserts (c : Column) : Option Value → Option Json → Prop
  | supplied {v j} (takes : c.Takes v j) : Inserts c (some v) (some j)
  | filled {v j} (fallback : c.fallback? = some v) (takes : c.Takes v j) : Inserts c none (some j)
  | maintained (maintained : c.isMaintained = true) : Inserts c none none
  | optional (unfilled : c.fallback? = none) (absent : c.mayBeAbsent = true) : Inserts c none none

/-- Why a new row is refused for the column under a key. -/
inductive Offends (c : Column) (key : String) : Option Value → TableError → Prop
  | supplied {v e} (rejects : c.Rejects key v e) : Offends c key (some v) e
  | filled {v e} (writable : c.isMaintained = false) (fallback : c.fallback? = some v)
      (rejects : c.Rejects key v e) : Offends c key none e
  | missing (writable : c.isMaintained = false) (unfilled : c.fallback? = none)
      (required : c.mayBeAbsent = false) : Offends c key none (.valueMissing key)

theorem Takes.writable {c : Column} {v : Value} {j : Json} (h : c.Takes v j) :
    c.isMaintained = false := by
  cases h <;> assumption

theorem takes_or_rejects (c : Column) (key : String) (v : Value) :
    (∃ j, c.Takes v j) ∨ ∃ e, c.Rejects key v e := by
  cases hc : c.isMaintained with
  | true => exact .inr ⟨_, .maintained hc⟩
  | false =>
    by_cases hv : v = .null
    · subst hv
      cases hnull : c.acceptsNull with
      | true => exact .inl ⟨_, .null hc hnull⟩
      | false => exact .inr ⟨_, .null hc hnull⟩
    · cases hw : c.codec.toWire v with
      | ok w => exact .inl ⟨_, .value hc hv hw⟩
      | error why => exact .inr ⟨_, .value hc hv hw⟩

theorem inserts_or_offends (c : Column) (key : String) (o : Option Value) :
    (∃ j, c.Inserts o j) ∨ ∃ e, c.Offends key o e := by
  cases o with
  | some v =>
    obtain ⟨j, hj⟩ | ⟨e, he⟩ := c.takes_or_rejects key v
    · exact .inl ⟨_, .supplied hj⟩
    · exact .inr ⟨e, .supplied he⟩
  | none =>
    cases hc : c.isMaintained with
    | true => exact .inl ⟨_, .maintained hc⟩
    | false =>
      cases hf : c.fallback? with
      | some v =>
        obtain ⟨j, hj⟩ | ⟨e, he⟩ := c.takes_or_rejects key v
        · exact .inl ⟨_, .filled hf hj⟩
        · exact .inr ⟨e, .filled hc hf he⟩
      | none =>
        cases habsent : c.mayBeAbsent with
        | true => exact .inl ⟨_, .optional hf habsent⟩
        | false => exact .inr ⟨_, .missing hc hf habsent⟩

end Column

namespace Columns
variable {columns : Columns} {row : Row} {properties : Properties} {key : String} {c : Column}
  {v : Value} {j : Json} {e : TableError}

theorem payload_of_takes (h : c.Takes v j) : payload key c v = .ok j := by
  cases h with
  | null writable nullable => simp [payload, writable, nullable, Value.isNull]
  | value writable given written =>
    simp [payload, writable, given, Value.isNull_iff, written, Except.mapError]

theorem payload_of_rejects (h : c.Rejects key v e) : payload key c v = .error e := by
  cases h with
  | maintained maintained => simp [payload, maintained]
  | null writable required => simp [payload, writable, required, Value.isNull]
  | value writable given refused =>
    simp [payload, writable, given, Value.isNull_iff, refused, Except.mapError]

/-- Each key of a row has a column. -/
def Cover (columns : Columns) (row : Row) : Prop :=
  ∀ k, row.contains k = true → columns.contains k = true

theorem insertField_of_value (h : inserted key c row = .ok (some v)) :
    insertField row (key, c) = (payload key c v).map fun j => some (c.name, j) := by
  have hpayload : insertField row (key, c) =
      payload key c v >>= fun j => .ok (some (c.name, j)) := by
    simp only [insertField, h]
    rfl
  rw [hpayload]
  cases payload key c v <;> rfl

theorem inserted_of_supplied (hv : row.get? key = some v) :
    inserted key c row = .ok (some v) := by
  simp only [inserted, hv]

/-- What a row leaves out is filled with the default of a column. -/
theorem inserted_of_fallback (hv : row.get? key = none) (hc : c.isMaintained = false)
    (hf : c.fallback? = some v) : inserted key c row = .ok (some v) := by
  simp [inserted, hv, hc, hf]

theorem insertField_of_inserts {o : Option Json} (h : c.Inserts (row.get? key) o) :
    insertField row (key, c) = .ok (o.map fun j => (c.name, j)) := by
  generalize hv : row.get? key = v at h
  cases h with
  | supplied takes =>
    rw [insertField_of_value (inserted_of_supplied hv), payload_of_takes takes]
    rfl
  | filled fallback takes =>
    rw [insertField_of_value (inserted_of_fallback hv takes.writable fallback),
      payload_of_takes takes]
    rfl
  | maintained maintained =>
    have hnone : inserted key c row = .ok none := by simp [inserted, hv, maintained]
    simp only [insertField, hnone]
    rfl
  | optional unfilled absent =>
    have hnone : inserted key c row = .ok none := by simp [inserted, hv, unfilled, absent]
    simp only [insertField, hnone]
    rfl

theorem insertField_of_offends (h : c.Offends key (row.get? key) e) :
    insertField row (key, c) = .error e := by
  generalize hv : row.get? key = v at h
  cases h with
  | supplied rejects =>
    rw [insertField_of_value (inserted_of_supplied hv), payload_of_rejects rejects]
    rfl
  | filled writable fallback rejects =>
    rw [insertField_of_value (inserted_of_fallback hv writable fallback),
      payload_of_rejects rejects]
    rfl
  | missing writable unfilled required =>
    have hmissing : inserted key c row = .error (.valueMissing key) := by
      simp [inserted, hv, writable, unfilled, required]
    simp only [insertField, hmissing]
    rfl

theorem failure?_insertField (row : Row) (key : String) (c : Column) :
    (failure? (insertField row (key, c)) = none ↔ ∃ o, c.Inserts (row.get? key) o) ∧
      ∀ e, failure? (insertField row (key, c)) = some e ↔ c.Offends key (row.get? key) e :=
  settled (c.inserts_or_offends key _)
    (fun ⟨_, h⟩ => failure?_eq_none.mpr ⟨_, insertField_of_inserts h⟩)
    fun _ h => failure?_eq_some.mpr (insertField_of_offends h)

theorem failure?_checkKeys (columns : Columns) (row : Row) :
    failure? (columns.checkKeys row) =
      row.entries.findSome? fun e =>
        if columns.contains e.1 then none else some (.noColumn e.1) := by
  have hfind : (row.keys.find? fun k => !columns.contains k).map TableError.noColumn =
      row.entries.findSome? fun e =>
        if columns.contains e.1 then none else some (.noColumn e.1) := by
    rw [KeyMap.keys]
    induction row.entries with
    | nil => rfl
    | cons e es ih =>
      rw [List.map_cons, List.find?_cons, List.findSome?_cons]
      cases columns.contains e.1 with
      | true => exact ih
      | false => rfl
  rw [← hfind, checkKeys]
  cases row.keys.find? fun k => !columns.contains k <;> rfl

theorem checkKeys_settles (columns : Columns) (hrow : row.Sorted) :
    (failure? (columns.checkKeys row) = none ↔ columns.Cover row) ∧
      ∀ e, failure? (columns.checkKeys row) = some e ↔
        ∃ k, row.contains k = true ∧ columns.contains k = false ∧ e = .noColumn k ∧
          ∀ k' < k, row.contains k' = true → columns.contains k' = true := by
  have hcontains : ∀ k, row.contains k = true ↔ ∃ v, row.get? k = some v :=
    fun k => Option.isSome_iff_exists
  rw [failure?_checkKeys]
  constructor
  · simp [Cover, hcontains, hrow.get?_eq_some]
  · intro e
    have hrefused : ∀ k, (if columns.contains k then none else some (TableError.noColumn k)) =
        some e ↔ columns.contains k = false ∧ e = .noColumn k := by
      intro k
      cases columns.contains k <;> simp [eq_comm]
    have haccepted : ∀ k, (if columns.contains k then none else some (TableError.noColumn k)) =
        none ↔ columns.contains k = true := by
      intro k
      cases columns.contains k <;> simp
    simp only [hrow.findSome?_eq_some, hcontains, hrefused, haccepted]
    constructor
    · rintro ⟨k, v, hv, ⟨hk, he⟩, hsmaller⟩
      exact ⟨k, ⟨v, hv⟩, hk, he, fun k' hlt ⟨v', hv'⟩ => hsmaller k' hlt v' hv'⟩
    · rintro ⟨k, ⟨v, hv⟩, hk, he, hsmaller⟩
      exact ⟨k, v, hv, ⟨hk, he⟩, fun k' hlt v' hv' => hsmaller k' hlt ⟨v', hv'⟩⟩

/-- Keys without a column come before columns that are not suited. -/
theorem failure?_insertProperties (columns : Columns) (row : Row) :
    failure? (columns.insertProperties row) = (failure? (columns.checkKeys row)).or
      (columns.entries.findSome? fun e => failure? (insertField row e)) := by
  rw [← failure?_mapM, insertProperties]
  cases columns.checkKeys row with
  | error e => rfl
  | ok u => cases columns.entries.mapM (insertField row) <;> rfl

/-- Under the name of each column stands what the column gets. -/
theorem get?_inserted (h : columns.insertProperties row = .ok properties)
    (hs : columns.Sorted) (hnames : columns.NamesDistinct) (name : String) (j : Json) :
    properties.get? name = some j ↔
      ∃ key c, columns.get? key = some c ∧ c.name = name ∧
        c.Inserts (row.get? key) (some j) := by
  constructor
  · intro hget
    obtain ⟨⟨key, c⟩, he, rfl, -⟩ := lowered_insertProperties h _ (KeyMap.mem_of_get? hget)
    obtain ⟨o, ho, hproperty⟩ := get?_insertProperties h hnames he
    refine ⟨key, c, hs.get?_of_mem he, rfl, ?_⟩
    obtain ⟨o', ho'⟩ := (failure?_insertField row key c).1.mp (failure?_eq_none.mpr ⟨o, ho⟩)
    obtain rfl := Except.ok.inj (ho.symm.trans (insertField_of_inserts ho'))
    rw [hget, Option.map_map] at hproperty
    cases o' with
    | none => exact nomatch hproperty
    | some j' =>
      obtain rfl : j = j' := Option.some.inj hproperty
      exact ho'
  · rintro ⟨key, c, hc, rfl, hinserts⟩
    obtain ⟨o, ho, hproperty⟩ := get?_insertProperties h hnames (KeyMap.mem_of_get? hc)
    obtain rfl := Except.ok.inj (ho.symm.trans (insertField_of_inserts hinserts))
    exact hproperty

/-- A row is inserted if and only if all its keys have columns and each column is suited. The
properties are then what the columns get under their names, and otherwise the error is about the
smallest key without a column or else about the first column that is not suited. -/
theorem insertProperties_settles (hs : columns.Sorted) (hrow : row.Sorted)
    (hnames : columns.NamesDistinct) :
    ((∃ properties, columns.insertProperties row = .ok properties) ↔
      columns.Cover row ∧ ∀ key c, columns.get? key = some c → ∃ o, c.Inserts (row.get? key) o) ∧
    (∀ properties, columns.insertProperties row = .ok properties →
      properties.Sorted ∧ ∀ name j, properties.get? name = some j ↔
        ∃ key c, columns.get? key = some c ∧ c.name = name ∧
          c.Inserts (row.get? key) (some j)) ∧
    ∀ e, columns.insertProperties row = .error e ↔
      (∃ k, row.contains k = true ∧ columns.contains k = false ∧ e = .noColumn k ∧
        ∀ k' < k, row.contains k' = true → columns.contains k' = true) ∨
      columns.Cover row ∧ ∃ key c, columns.get? key = some c ∧ c.Offends key (row.get? key) e ∧
        ∀ key' < key, ∀ c', columns.get? key' = some c' → ∃ o, c'.Inserts (row.get? key') o := by
  obtain ⟨hcover, hlack⟩ := checkKeys_settles columns hrow
  refine ⟨?_, fun properties h => ⟨?_, get?_inserted h hs hnames⟩, fun e => ?_⟩
  · rw [← failure?_eq_none, failure?_insertProperties, Option.or_eq_none_iff, hcover,
      List.findSome?_eq_none_iff]
    refine and_congr_right fun _ => ⟨fun h key c hc => ?_, fun h e he => ?_⟩
    · exact (failure?_insertField row key c).1.mp (h _ (hs.get?_eq_some.mp hc))
    · exact (failure?_insertField row e.1 e.2).1.mpr (h _ _ (hs.get?_of_mem he))
  · obtain ⟨os, -, rfl⟩ := insertProperties_eq_ok h
    exact KeyMap.sorted_ofList _
  · rw [← failure?_eq_some, failure?_insertProperties, Option.or_eq_some_iff, hcover, hlack,
      hs.findSome?_eq_some]
    simp only [(failure?_insertField _ _ _).1, (failure?_insertField _ _ _).2]

/-- What was ordered, whether it is paid and when the order was placed. -/
def orders : Columns :=
  ⟨[("item", .ofType .title "Item"),
    ("paid", .withDefault (.bool false) (.ofType .checkbox "Paid")),
    ("placed", .ofType .createdTime "Placed")]⟩

theorem insertProperties_settles_orders :
    ∃ properties, orders.insertProperties ⟨[("item", .string "Tea")]⟩ = .ok properties ∧
      properties.get? "Paid" = some (Codec.property .checkbox (.bool false)) := by
  have hs : orders.Sorted := by
    unfold KeyMap.Sorted
    decide
  have hnames : orders.NamesDistinct := by
    unfold NamesDistinct
    decide
  have hrow : KeyMap.Sorted ⟨[("item", Value.string "Tea")]⟩ := List.pairwise_singleton _ _
  have haccepted : ∃ properties,
      orders.insertProperties ⟨[("item", .string "Tea")]⟩ = .ok properties := ⟨_, rfl⟩
  obtain ⟨properties, h⟩ := haccepted
  obtain ⟨-, hinserted, -⟩ := insertProperties_settles hs hrow hnames
  refine ⟨properties, h, ((hinserted properties h).2 "Paid" _).mpr ?_⟩
  exact ⟨"paid", _, rfl, rfl, .filled rfl (.value rfl nofun rfl)⟩

end Columns
end DocTables
