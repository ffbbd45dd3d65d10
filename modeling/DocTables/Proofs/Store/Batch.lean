import DocTables.Proofs.Store.Events
import DocTables.Store.Memory.Batch

/-!
Records that are added in one go are those that calls would add one after the other.
-/
namespace DocTables.Memory
open Outcome
variable {m : Memory} {source : String} {c : Collection}

theorem newRecord_eq (m : Memory) (c : Collection) (source : String) (ps : Properties) :
    m.newRecord c source ps = placedRecord c.properties (m.writes + 1) (m.records.length + 1)
      (m.records.countP (fun s => s.source = source) + 1) ps := rfl

@[simp] theorem length_newRecords (m : Memory) (c : Collection) (source : String)
    (batch : List Properties) : (m.newRecords c source batch).length = batch.length :=
  List.length_mapIdx

/-- The first record of a batch is added to the store, the others to the store with the first. -/
theorem newRecords_cons (m : Memory) (c : Collection) (source : String) (ps : Properties)
    (batch : List Properties) :
    m.newRecords c source (ps :: batch) = m.newRecord c source ps ::
      (m.withRecord ⟨source, m.newRecord c source ps⟩).newRecords c source batch := by
  have hplaces : (m.withRecord ⟨source, m.newRecord c source ps⟩).records.length =
      m.records.length + 1 := List.length_append
  have hnumbers : (m.withRecord ⟨source, m.newRecord c source ps⟩).records.countP
      (fun s => s.source = source) = m.records.countP (fun s => s.source = source) + 1 := by
    simp [withRecord]
  have hwrites : (m.withRecord ⟨source, m.newRecord c source ps⟩).writes = m.writes + 1 := rfl
  simp only [newRecords, List.mapIdx_cons, newRecord_eq] at hplaces hnumbers hwrites ⊢
  simp only [hplaces, hnumbers, hwrites, Nat.add_zero, Nat.add_right_comm _ 1, ← Nat.add_assoc]

theorem withRecords_cons (m : Memory) (source : String) (r : Record) (records : List Record) :
    m.withRecords source (r :: records) = (m.withRecord ⟨source, r⟩).withRecords source records := by
  simp only [withRecords, withRecord, List.length_cons, List.map_cons, List.append_assoc,
    List.singleton_append, Nat.add_assoc, Nat.add_comm 1]

theorem withRecord_noted (m : Memory) (call : Call) (s : SourcedRecord) (calls : List Call) :
    ((m.noted [call]).withRecord s).noted calls = (m.noted (call :: calls)).withRecord s := by
  simp only [noted, withRecord, List.append_assoc, List.singleton_append]

/-- As long as nothing was told to fail, calls that add records one after the other add the batch of
them. -/
theorem after_addRecord (hc : m.collectionOf source = .ok c)
    (hworks : m.failure? .addRecord = none) (batch : List Properties) :
    m.after (batch.map fun ps => .call (.addRecord source ps)) =
      (m.noted (batch.map (.addRecord source))).withRecords source
        (m.newRecords c source batch) := by
  induction batch generalizing m with
  | nil => simp [withRecords, newRecords, noted]
  | cons ps batch ih =>
    have hact : (Event.call (.addRecord source ps)).act m =
        (m.noted [.addRecord source ps]).withRecord ⟨source, m.newRecord c source ps⟩ :=
      (state_run m (.addRecord source ps)).trans
        (congrArg Prod.snd (addRecord_store_eq_ok hc hworks ps))
    have hrest := ih (m := (m.noted [.addRecord source ps]).withRecord
      ⟨source, m.newRecord c source ps⟩) hc hworks
    rw [List.map_cons, after_cons, hact, hrest, newRecords_cons, withRecords_cons, List.map_cons,
      withRecord_noted]
    -- The numbers of new records do not depend on the notes.
    rfl

theorem addRecords_eq_ok {batch : List Properties} {u : List Record × Memory} :
    addRecords source batch m = .ok u ↔ ∃ c, m.collectionOf source = .ok c ∧
      u = (m.newRecords c source batch, m.withRecords source (m.newRecords c source batch)) := by
  rw [addRecords, bind_eq_ok]
  simp only [pure, Except.pure, Except.ok.injEq, eq_comm]

/-- A batch leaves the store as calls that are not told to fail leave it, but for the notes. -/
theorem after_addRecords {batch : List Properties} {u : List Record × Memory}
    (hu : addRecords source batch m = .ok u) (hworks : m.failure? .addRecord = none) :
    m.after (batch.map fun ps => .call (.addRecord source ps)) =
      u.2.noted (batch.map (.addRecord source)) := by
  obtain ⟨c, hc, rfl⟩ := addRecords_eq_ok.mp hu
  rw [after_addRecord hc hworks]
  rfl

end DocTables.Memory
