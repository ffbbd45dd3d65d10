import DocTables.Proofs.Store.Steps

/-!
Calls that a store refuses. They leave nothing but their note, and as no call looks at the notes,
the calls that come later are answered as if the refused one had not been made.
-/
namespace DocTables.Memory
open Effect Outcome
variable {α : Type} {m : Memory} {call : Call} {act : Memory → Except StoreError (α × Memory)}

/-- The same data with other notes of calls and of reads. -/
def renoted (m : Memory) (calls : List Call) (reading mostReading : Nat) : Memory :=
  { m with calls := calls, reading := reading, mostReading := mostReading }

theorem SameData.renoted (m : Memory) (calls : List Call) (reading mostReading : Nat) :
    SameData m (m.renoted calls reading mostReading) := ⟨rfl, rfl, rfl, rfl, rfl, rfl, rfl⟩

@[simp] theorem collectionOf_renoted (m : Memory) (calls : List Call) (reading mostReading : Nat)
    (source : String) :
    (m.renoted calls reading mostReading).collectionOf source = m.collectionOf source := rfl

@[simp] theorem records_renoted (m : Memory) (calls : List Call) (reading mostReading : Nat) :
    (m.renoted calls reading mostReading).records = m.records := rfl

/-- The action does not look at the notes, and leaves them as they are. -/
def Blind (act : Memory → Except StoreError (α × Memory)) : Prop :=
  ∀ m calls reading mostReading, act (m.renoted calls reading mostReading) =
    (act m).map fun x => (x.1, x.2.renoted calls reading mostReading)

theorem blind_findCollection (id : String) : Blind (findCollection id) := by
  intro m calls reading mostReading
  have hfind : ∀ m : Memory, findCollection id m =
      (m.collections.get? id).elim (.error (.collectionNotFound id)) fun c => .ok (c, m) := by
    intro m
    unfold findCollection
    cases m.collections.get? id <;> rfl
  rw [hfind, hfind]
  cases hc : m.collections.get? id <;> simp [hc, renoted, Except.map]

theorem blind_extendSchema (source : String) (ps : Properties) :
    Blind (extendSchema source ps) := by
  intro m calls reading mostReading
  simp only [extendSchema, collectionOf_renoted]
  cases m.collectionOf source <;> rfl

theorem blind_addRecord (source : String) (ps : Properties) : Blind (addRecord source ps) := by
  intro m calls reading mostReading
  simp only [addRecord, collectionOf_renoted]
  cases m.collectionOf source <;> rfl

theorem blind_changeRecord (id : String) (change : Change) : Blind (changeRecord id change) := by
  intro m calls reading mostReading
  simp only [changeRecord, collectionOf_renoted, records_renoted]
  cases m.records.find? fun s => s.record.id = id with
  | none => rfl
  | some s => cases hc : m.collectionOf s.source <;> simp only [hc] <;> rfl

theorem blind_list (source : String) (q : Query) :
    Blind fun m => (list source q m).map fun page => (page, m) := by
  intro m calls reading mostReading
  have hlist : list source q (m.renoted calls reading mostReading) = list source q m := rfl
  simp only [hlist]
  cases list source q m <;> rfl

/-- With other notes a call does the same, and is noted behind them. -/
theorem perform_renoted (h : Blind act) (call : Call) (m : Memory) (calls : List Call)
    (reading mostReading : Nat) :
    perform call act (m.renoted calls reading mostReading) = ((perform call act m).1,
      (perform call act m).2.renoted (calls ++ [call]) reading mostReading) := by
  have hact := h (m.noted [call]) (calls ++ [call]) reading mostReading
  have hnoted : (m.renoted calls reading mostReading).noted [call] =
      (m.noted [call]).renoted (calls ++ [call]) reading mostReading := rfl
  have hfailure : (m.renoted calls reading mostReading).failure? call.method =
      m.failure? call.method := rfl
  rw [Steps.perform_eq, Steps.perform_eq, hfailure, hnoted, Steps.attempt, hact]
  cases m.failure? call.method with
  | some message => rfl
  | none =>
    simp only [Option.elim_none, Steps.attempt]
    rcases act (m.noted [call]) with e | ⟨a, m'⟩ <;> rfl

/-- A read that ends is no longer counted. -/
theorem readRecord_eq (m : Memory) (id : String) :
    store.readRecord id m = (m.failure? .readRecord).elim
      ((m.record? id).elim (.error (.recordNotFound id)) .ok,
        m.renoted (m.calls ++ [.readRecord id]) m.reading (max m.mostReading (m.reading + 1)))
      fun message => (.error (.injected message), m.noted [.readRecord id]) := by
  have hstart : store.startRead id m = (m.failure? .readRecord).elim
      (.ok (), (m.noted [.readRecord id]).beginRead.2)
      fun message => (.error (.injected message), m.noted [.readRecord id]) :=
    Steps.perform_eq (.readRecord id) (fun m => .ok m.beginRead) m
  rw [Store.readRecord, run_bind, hstart]
  cases m.failure? .readRecord <;> rfl

theorem readRecord_renoted (m : Memory) (id : String) (calls : List Call)
    (reading mostReading : Nat) :
    ∃ most, store.readRecord id (m.renoted calls reading mostReading) =
      ((store.readRecord id m).1,
        (store.readRecord id m).2.renoted (calls ++ [.readRecord id]) reading most) := by
  have hfailure : (m.renoted calls reading mostReading).failure? .readRecord =
      m.failure? .readRecord := rfl
  rw [readRecord_eq, readRecord_eq, hfailure]
  cases m.failure? .readRecord with
  | some message => exact ⟨mostReading, rfl⟩
  | none => exact ⟨max mostReading (reading + 1), rfl⟩

/-- With other notes a store answers a call in the same way, and notes it behind them. -/
theorem run_renoted (m : Memory) (c : Call) (calls : List Call) (reading mostReading : Nat) :
    ∃ most, store.run c (m.renoted calls reading mostReading) =
      ((store.run c m).1, (store.run c m).2.renoted (calls ++ [c]) reading most) := by
  cases c with
  | readRecord id =>
    obtain ⟨most, h⟩ := readRecord_renoted m id calls reading mostReading
    refine ⟨most, ?_⟩
    simp only [Store.run, run_map, h]
  | readSchema id =>
    refine ⟨mostReading, ?_⟩
    simp only [Store.run, run_map, store, perform_renoted (blind_findCollection id)]
  | addCollection parent title ps =>
    refine ⟨mostReading, ?_⟩
    have hblind : Blind fun m => .ok (addCollection ps m) := fun _ _ _ _ => rfl
    simp only [Store.run, run_map, store, perform_renoted hblind]
  | extendSchema source ps =>
    refine ⟨mostReading, ?_⟩
    simp only [Store.run, run_map, store, perform_renoted (blind_extendSchema source ps)]
  | addRecord source ps =>
    refine ⟨mostReading, ?_⟩
    simp only [Store.run, run_map, store, perform_renoted (blind_addRecord source ps)]
  | changeRecord id change =>
    refine ⟨mostReading, ?_⟩
    simp only [Store.run, run_map, store, perform_renoted (blind_changeRecord id change)]
  | query source q =>
    refine ⟨mostReading, ?_⟩
    simp only [Store.run, run_map, store, perform_renoted (blind_list source q)]

theorem runAll_cons (m : Memory) (c : Call) (cs : List Call) :
    store.runAll (c :: cs) m = ((store.run c m).1 :: (store.runAll cs (store.run c m).2).1,
      (store.runAll cs (store.run c m).2).2) := rfl

/-- The calls of a run are answered whatever notes there are. -/
theorem runAll_renoted (m : Memory) (cs calls : List Call) (reading mostReading : Nat) :
    ∃ most, store.runAll cs (m.renoted calls reading mostReading) =
      ((store.runAll cs m).1, (store.runAll cs m).2.renoted (calls ++ cs) reading most) := by
  induction cs generalizing m calls mostReading with
  | nil =>
    rw [List.append_nil]
    exact ⟨mostReading, rfl⟩
  | cons c cs ih =>
    obtain ⟨most, hc⟩ := run_renoted m c calls reading mostReading
    obtain ⟨most', hcs⟩ := ih (store.run c m).2 (calls ++ [c]) most
    refine ⟨most', ?_⟩
    rw [runAll_cons, hc, hcs, runAll_cons, List.append_assoc]
    rfl

/-- A refused call leaves its note, and what is known of reads. -/
theorem run_refused {c : Call} {e : StoreError} (h : (store.run c m).1 = .error e) :
    ∃ most, (store.run c m).2 = m.renoted (m.calls ++ [c]) m.reading most := by
  have hrefused : ∀ {β γ : Type} {f : β → γ} {x : StoreM Memory β},
      ((f <$> x) m).1 = .error e → (x m).1 = .error e := by
    intro β γ f x hx
    rw [run_map, ← failure?_eq_some, failure?_map, failure?_eq_some] at hx
    exact hx
  rw [state_run]
  cases c with
  | readRecord id =>
    simp only [readRecord_eq]
    cases m.failure? .readRecord with
    | some message => exact ⟨m.mostReading, rfl⟩
    | none => exact ⟨max m.mostReading (m.reading + 1), rfl⟩
  | readSchema id => exact ⟨m.mostReading, perform_refused (hrefused h)⟩
  | addCollection parent title ps => exact ⟨m.mostReading, perform_refused (hrefused h)⟩
  | extendSchema source ps => exact ⟨m.mostReading, perform_refused (hrefused h)⟩
  | addRecord source ps => exact ⟨m.mostReading, perform_refused (hrefused h)⟩
  | changeRecord id change => exact ⟨m.mostReading, perform_refused (hrefused h)⟩
  | query source q => exact ⟨m.mostReading, perform_refused (hrefused h)⟩

/-- A refused call leaves all data as it was and is noted behind the calls before it. Step by step
it comes to the same, and all calls after it are answered as if it had not been made. -/
theorem refused_settles {c : Call} {e : StoreError} (h : (store.run c m).1 = .error e) :
    SameData m (store.run c m).2 ∧ (store.run c m).2.calls = m.calls ++ [c] ∧
      (store.run c m).2.reading = m.reading ∧
      Steps.store.run c m = (.error e, (store.run c m).2) ∧
      ∀ cs, (store.runAll cs (store.run c m).2).1 = (store.runAll cs m).1 ∧
        SameData (store.runAll cs m).2 (store.runAll cs (store.run c m).2).2 ∧
        (store.runAll cs (store.run c m).2).2.calls = m.calls ++ c :: cs := by
  obtain ⟨most, hm⟩ := run_refused h
  refine ⟨?_, ?_, ?_, ?_, fun cs => ?_⟩
  · rw [hm]
    exact SameData.renoted m _ _ _
  · rw [hm]
    rfl
  · rw [hm]
    rfl
  · rw [Steps.store_eq, ← h]
    rfl
  · obtain ⟨most', hcs⟩ := runAll_renoted m cs (m.calls ++ [c]) m.reading most
    rw [hm, hcs]
    refine ⟨rfl, SameData.renoted _ _ _ _, ?_⟩
    simp [renoted]

/-- A store of one collection with one record. -/
def stocked : Memory :=
  (store.run (.addRecord "ds" .empty) (empty.seed ⟨"col", "ds", .empty⟩)).2

theorem refused_settles_stocked :
    (store.run (.addRecord "elsewhere" .empty) stocked).1 = .error (.sourceNotFound "elsewhere") ∧
      SameData stocked (store.run (.addRecord "elsewhere" .empty) stocked).2 ∧
      (store.runAll [.addRecord "ds" .empty]
        (store.run (.addRecord "elsewhere" .empty) stocked).2).1 =
        (store.runAll [.addRecord "ds" .empty] stocked).1 := by
  have hrefused : (store.run (.addRecord "elsewhere" .empty) stocked).1 =
      .error (.sourceNotFound "elsewhere") := rfl
  obtain ⟨hsame, -, -, -, hlater⟩ := refused_settles hrefused
  exact ⟨hrefused, hsame, (hlater [.addRecord "ds" .empty]).1⟩

end DocTables.Memory
