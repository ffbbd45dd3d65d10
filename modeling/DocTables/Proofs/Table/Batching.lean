import DocTables.Proofs.Column.Inserting
import DocTables.Proofs.Store.Events
import DocTables.Proofs.Table.Refusing

/-!
Batches of inserts. A row that is refused keeps the whole batch from the store. Otherwise a batch is
its inserts one after the other, up to the first that fails: what was added before stays, and
nothing is sent after it.
-/
namespace DocTables
open Outcome Effect

section Observing
variable {σ δ : Type}

/-- What is seen of a state notes each record that the store is asked to add. -/
def Store.Notes (store : Store σ) (log : σ → List Call) : Prop :=
  ∀ source ps s, log (store.addRecord source ps s).2 = log s ++ [.addRecord source ps]

/-- What is seen of a state stays as it was when the store refuses to add a record. -/
def Store.Spares (store : Store σ) (data : σ → δ) : Prop :=
  ∀ source ps s e s', store.addRecord source ps s = (.error e, s') → data s' = data s

theorem Memory.notes_store : store.Notes calls := by
  intro source ps m
  rcases addRecord_store_cases m source ps with ⟨c, -, h⟩ | ⟨e, h⟩ <;> rw [h] <;> rfl

/-- The store in memory keeps all but its notes when it refuses a record. -/
theorem Memory.spares_store : store.Spares clearCalls := by
  intro source ps m e m' h
  rcases addRecord_store_cases m source ps with ⟨c, -, hadded⟩ | ⟨e', hrefused⟩
  · exact nomatch (Prod.mk.inj (h.symm.trans hadded)).1
  · obtain ⟨-, rfl⟩ := Prod.mk.inj (h.symm.trans hrefused)
    rfl

/-- The store in memory with room for some records only. -/
def Memory.roomFor (n : Nat) : Store Memory :=
  { store with
    addRecord := fun source ps m =>
      if m.records.length < n then store.addRecord source ps m
      else (.error .noResponse, m.noted [.addRecord source ps]) }

theorem Memory.notes_roomFor (n : Nat) : (roomFor n).Notes calls := by
  intro source ps m
  simp only [roomFor]
  split
  · exact notes_store source ps m
  · rfl

theorem Memory.spares_roomFor (n : Nat) : (roomFor n).Spares clearCalls := by
  intro source ps m e m' h
  simp only [roomFor] at h
  split at h
  · exact spares_store source ps m e m' h
  · obtain ⟨-, rfl⟩ := Prod.mk.inj h
    rfl

end Observing

namespace Table
variable {σ : Type} {stores : String → Store σ} {t : Table} {row : Row} {rows before : List Row}
  {ps : Properties} {batch : List Properties} {ds : List DecodedRecord} {d : DecodedRecord}
  {e : TableError} {cause : StoreError} {s s₁ s' : σ}

/-- A row that is accepted is sent as it was lowered. -/
theorem insert_eq_add (hps : t.columns.insertProperties row = .ok ps) :
    t.insert stores row = t.add stores ps := by
  rw [insert, hps]
  rfl

theorem mapM_insert (h : rows.mapM t.columns.insertProperties = .ok batch) :
    rows.mapM (t.insert stores) = batch.mapM (t.add stores) := by
  have hrows := mapM_eq_ok.mp h
  clear h
  induction hrows with
  | nil => rfl
  | cons hps _ ih => rw [List.mapM_cons, List.mapM_cons, insert_eq_add hps, ih]

theorem insertAll_eq (h : rows.mapM t.columns.insertProperties = .ok batch) :
    t.insertAll stores rows = rows.mapM (t.insert stores) := by
  rw [mapM_insert h, insertAll, h]
  rfl

theorem insertAll_refused (h : rows.mapM t.columns.insertProperties = .error e) (s : σ) :
    t.insertAll stores rows s = (.error e, s) := by
  rw [insertAll, h]
  rfl

theorem add_refused (h : (stores t.store).addRecord t.collection.source ps s = (.error cause, s')) :
    t.add stores ps s = (.error (.storeFailed (.add t.title) cause.message), s') := by
  rw [add, run_bind, run_asking, h]

/-- A failure that comes from the store is the refusal of a record. -/
theorem add_eq_error (h : t.add stores ps s = (.error e, s')) (he : e.fromStore = true) :
    ∃ cause, (stores t.store).addRecord t.collection.source ps s = (.error cause, s') ∧
      e = .storeFailed (.add t.title) cause.message := by
  rcases run_bind_eq_error h with hasked | ⟨r, s₁, -, hdecode⟩
  · exact asking_eq_error hasked
  · have hread := Columns.ofRecord_of_decode (Prod.mk.inj hdecode).1
    cases e with
    | storeFailed doing why => exact nomatch hread
    | _ => exact nomatch he

/-- A record that has been added was asked for once. -/
theorem log_add {log : σ → List Call} (hlog : (stores t.store).Notes log)
    (h : t.add stores ps s = (.ok d, s')) :
    log s' = log s ++ [.addRecord t.collection.source ps] := by
  obtain ⟨r, s₁, hasked, hdecode⟩ := run_bind_eq_ok h
  obtain ⟨-, rfl⟩ := Prod.mk.inj hdecode
  have hnoted := hlog t.collection.source ps s
  rwa [asking_eq_ok hasked] at hnoted

/-- Inserts that succeed have asked for the properties of their rows, in order. -/
theorem log_inserts {log : σ → List Call} (hlog : (stores t.store).Notes log)
    (h : Runs (t.insert stores) s rows ds s') :
    ∃ batch, rows.mapM t.columns.insertProperties = .ok batch ∧
      log s' = log s ++ batch.map (.addRecord t.collection.source) := by
  induction h with
  | nil => exact ⟨[], rfl, by simp⟩
  | @cons s s₁ s' row rows d ds hfirst _ ih =>
    obtain ⟨ps, s₀, hchecked, hadd⟩ := run_bind_eq_ok hfirst
    obtain ⟨hps, rfl⟩ := Prod.mk.inj hchecked
    obtain ⟨batch, hbatch, hlog'⟩ := ih
    refine ⟨ps :: batch, mapM_eq_ok.mpr (.cons hps (mapM_eq_ok.mp hbatch)), ?_⟩
    rw [hlog', log_add hlog hadd, List.append_assoc]
    rfl

/-- The store refuses a row of a batch. The rows before it have been inserted one by one. -/
structure StopsAt (stores : String → Store σ) (t : Table) (rows before : List Row)
    (ds : List DecodedRecord) (cause : StoreError) (s s₁ s' : σ) : Prop where
  done : Runs (t.insert stores) s before ds s₁
  refused : ∃ row after ps, rows = before ++ row :: after ∧
    t.columns.insertProperties row = .ok ps ∧
    (stores t.store).addRecord t.collection.source ps s₁ = (.error cause, s')

namespace StopsAt

theorem run (h : t.StopsAt stores rows before ds cause s s₁ s') :
    rows.mapM (t.insert stores) s =
      (.error (.storeFailed (.add t.title) cause.message), s') := by
  obtain ⟨row, after, ps, hrows, hps, hrefused⟩ := h.refused
  refine run_mapM_eq_error.mpr ⟨before, row, after, ds, s₁, hrows, h.done, ?_⟩
  rw [insert_eq_add hps, add_refused hrefused]

/-- The rows up to the refused one have been sent, and no others. -/
theorem log (h : t.StopsAt stores rows before ds cause s s₁ s') {log : σ → List Call}
    (hlog : (stores t.store).Notes log) :
    ∃ batch, (rows.take (before.length + 1)).mapM t.columns.insertProperties = .ok batch ∧
      log s' = log s ++ batch.map (.addRecord t.collection.source) := by
  obtain ⟨row, after, ps, rfl, hps, hrefused⟩ := h.refused
  obtain ⟨batch, hbatch, hdone⟩ := log_inserts hlog h.done
  refine ⟨batch ++ [ps], ?_, ?_⟩
  · rw [List.take_append, List.take_of_length_le (Nat.le_succ _), Nat.add_sub_cancel_left,
      List.take_succ_cons, List.take_zero, mapM_eq_ok]
    exact List.rel_append (mapM_eq_ok.mp hbatch) (.cons hps .nil)
  · have hnoted := hlog t.collection.source ps s₁
    rw [hrefused] at hnoted
    rw [hnoted, hdone, List.map_append, List.append_assoc]
    rfl

theorem data (h : t.StopsAt stores rows before ds cause s s₁ s') {δ : Type} {data : σ → δ}
    (hdata : (stores t.store).Spares data) : data s' = data s₁ := by
  obtain ⟨row, after, ps, -, -, hrefused⟩ := h.refused
  exact hdata _ _ _ _ _ hrefused

end StopsAt

/-- Inserts one after the other fail over the store where it refuses a row. -/
theorem stopsAt_of_inserts (h : rows.mapM (t.insert stores) s = (.error e, s'))
    (hrows : ∀ row ∈ rows, ∃ ps, t.columns.insertProperties row = .ok ps)
    (he : e.fromStore = true) : ∃ before ds cause s₁,
      t.StopsAt stores rows before ds cause s s₁ s' ∧
      e = .storeFailed (.add t.title) cause.message := by
  obtain ⟨before, row, after, ds, s₁, rfl, hbefore, hrow⟩ := run_mapM_eq_error.mp h
  obtain ⟨ps, hps⟩ := hrows row (by simp)
  rw [insert_eq_add hps] at hrow
  obtain ⟨cause, hrefused, rfl⟩ := add_eq_error hrow he
  exact ⟨before, ds, cause, s₁, ⟨hbefore, row, after, ps, rfl, hps, hrefused⟩, rfl⟩

/-- The first row of a batch that is refused decides the error before anything is sent. A batch of
accepted rows is its inserts one after the other. It fails over the store just where that refuses a
row: then the rows before are inserted, and of the others none but the refused one has been sent. -/
theorem insertAll_settles (stores : String → Store σ) (t : Table) (rows : List Row) :
    (∀ before row after e, rows = before ++ row :: after →
      (∀ r ∈ before, ∃ ps, t.columns.insertProperties r = .ok ps) →
      t.columns.insertProperties row = .error e →
      ∀ s, t.insertAll stores rows s = (.error e, s)) ∧
    ((∀ row ∈ rows, ∃ ps, t.columns.insertProperties row = .ok ps) →
      t.insertAll stores rows = rows.mapM (t.insert stores) ∧
      (∀ s ds s', t.insertAll stores rows s = (.ok ds, s') ↔
        Runs (t.insert stores) s rows ds s') ∧
      (∀ s e s', t.insertAll stores rows s = (.error e, s') ∧ e.fromStore = true ↔
        ∃ before ds cause s₁, t.StopsAt stores rows before ds cause s s₁ s' ∧
          e = .storeFailed (.add t.title) cause.message) ∧
      ∀ before ds cause s s₁ s', t.StopsAt stores rows before ds cause s s₁ s' →
        (∀ (δ : Type) (data : σ → δ), (stores t.store).Spares data → data s' = data s₁) ∧
        ∀ log, (stores t.store).Notes log →
          ∃ batch, (rows.take (before.length + 1)).mapM t.columns.insertProperties = .ok batch ∧
            log s' = log s ++ batch.map (.addRecord t.collection.source)) := by
  refine ⟨fun before row after e hrows hbefore hrow s => ?_, fun hrows => ?_⟩
  · apply insertAll_refused
    rw [← failure?_eq_some, failure?_mapM, hrows, List.findSome?_append,
      List.findSome?_eq_none_iff.mpr fun r hr => failure?_eq_none.mpr (hbefore r hr),
      List.findSome?_cons, failure?_eq_some.mpr hrow]
    rfl
  · obtain ⟨batch, hbatch⟩ := mapM_total hrows
    have heq : t.insertAll stores rows = rows.mapM (t.insert stores) := insertAll_eq hbatch
    rw [heq]
    refine ⟨rfl, fun s ds s' => run_mapM_eq_ok, fun s e s' => ⟨?_, ?_⟩, fun _ _ _ _ _ _ h => ?_⟩
    · rintro ⟨h, he⟩
      exact stopsAt_of_inserts h hrows he
    · rintro ⟨before, ds, cause, s₁, h, rfl⟩
      exact ⟨h.run, rfl⟩
    · exact ⟨fun _ _ hdata => h.data hdata, fun _ hlog => h.log hlog⟩

def orderTable : Table :=
  ⟨1, "Orders", Columns.orders, ⟨"new-col-1", "new-ds-1"⟩, "m", 0, {}⟩

/-- A store with the collection of the table. -/
def orderMemory : Memory :=
  (Memory.store.run (.addCollection "page" "Orders" orderTable.columns.schema) .empty).2

def orderOf (item : String) : Row := ⟨[("item", .string item)]⟩

/-- Every store has room for one record. -/
def oneRoom (_ : String) : Store Memory := Memory.roomFor 1

/-- A batch with an unknown column is refused as a whole. Where there is room for one record, the
second of three rows is refused by the store, and the third is not sent. -/
theorem insertAll_settles_orders :
    orderTable.insertAll oneRoom [orderOf "Tea", ⟨[("size", .int 2)]⟩] orderMemory =
      (.error (.noColumn "size"), orderMemory) ∧
    ∃ m, orderTable.insertAll oneRoom [orderOf "Tea", orderOf "Jam", orderOf "Salt"] orderMemory =
        (.error (.storeFailed (.add "Orders") "request failed"), m) ∧
      m.records.length = 1 ∧ m.calls.length = orderMemory.calls.length + 2 := by
  constructor
  · exact (insertAll_settles oneRoom orderTable _).1 [orderOf "Tea"] _ [] _ rfl
      (List.forall_mem_singleton.mpr ⟨_, rfl⟩) rfl orderMemory
  · have hrows : ∀ row ∈ [orderOf "Tea", orderOf "Jam", orderOf "Salt"],
        ∃ ps, orderTable.columns.insertProperties row = .ok ps := by
      simp only [List.forall_mem_cons, List.not_mem_nil, false_implies, implies_true, and_true]
      exact ⟨⟨_, rfl⟩, ⟨_, rfl⟩, ⟨_, rfl⟩⟩
    obtain ⟨-, -, hfails, hleft⟩ := (insertAll_settles oneRoom orderTable _).2 hrows
    obtain ⟨ds, m₁, hdone, hrecords⟩ : ∃ ds m₁, Runs (orderTable.insert oneRoom) orderMemory
        [orderOf "Tea"] ds m₁ ∧ m₁.records.length = 1 :=
      ⟨_, _, .cons rfl .nil, rfl⟩
    obtain ⟨ps, hps⟩ : ∃ ps, orderTable.columns.insertProperties (orderOf "Jam") = .ok ps :=
      ⟨_, rfl⟩
    have hrefused : (Memory.roomFor 1).addRecord "new-ds-1" ps m₁ =
        (.error .noResponse, m₁.noted [.addRecord "new-ds-1" ps]) :=
      if_neg (by rw [hrecords]; exact Nat.lt_irrefl 1)
    have hstop : orderTable.StopsAt oneRoom [orderOf "Tea", orderOf "Jam", orderOf "Salt"]
        [orderOf "Tea"] ds .noResponse orderMemory m₁
        (m₁.noted [.addRecord "new-ds-1" ps]) :=
      ⟨hdone, _, [orderOf "Salt"], ps, rfl, hps, hrefused⟩
    obtain ⟨hdata, hlog⟩ := hleft _ _ _ _ _ _ hstop
    refine ⟨_, ((hfails _ _ _).mpr ⟨_, _, _, _, hstop, rfl⟩).1, ?_, ?_⟩
    · rw [← hrecords]
      exact congrArg (fun m => m.records.length) (hdata _ _ (Memory.spares_roomFor 1))
    · obtain ⟨batch, hbatch, hcalls⟩ := hlog _ (Memory.notes_roomFor 1)
      rw [hcalls, List.length_append, List.length_map, ← (mapM_eq_ok.mp hbatch).length_eq]
      rfl

end Table
end DocTables
