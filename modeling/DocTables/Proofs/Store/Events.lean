import DocTables.Proofs.Store.Edited

/-!
What happens to a store in memory, one event after the other. An event adds a record, changes one,
or leaves all of them as they are, and each of these is described once. What a run brings is
gathered event by event.
-/
namespace DocTables
open Outcome

/-- The properties that a call carries are in key order. -/
def Call.Ordered : Call → Prop
  | addCollection _ _ properties | extendSchema _ properties | addRecord _ properties
  | changeRecord _ (.properties properties) => properties.Sorted
  | _ => True

namespace Memory
variable {m m' : Memory} {source id : String} {c : Collection} {ps : Properties}

/-- A call, an end of a read that others overlap, or a setting of the store. -/
inductive Event where
  | call (c : Call)
  | startRead (id : String)
  | finishRead (id : String)
  | seed (c : Collection)
  | failWith (method : Method) (message : String)
  | clearFailures
  | clearCalls
  | setHidesMore (flag : Bool)

namespace Event

/-- The store after an event, whatever the answer is. -/
def act : Event → Memory → Memory
  | call c, m => (store.run c m).2
  | startRead id, m => (store.startRead id m).2
  | finishRead id, m => (store.finishRead id m).2
  | seed c, m => m.seed c
  | failWith method message, m => m.failWith method message
  | clearFailures, m => m.clearFailures
  | clearCalls, m => m.clearCalls
  | setHidesMore flag, m => m.setHidesMore flag

def Ordered : Event → Prop
  | call c => c.Ordered
  | seed c => c.properties.Sorted
  | _ => True

end Event

/-- The store after events, the first of them first. -/
def after (m : Memory) (es : List Event) : Memory := es.foldl (fun m e => e.act m) m

@[simp] theorem after_nil (m : Memory) : m.after [] = m := rfl

@[simp] theorem after_cons (m : Memory) (e : Event) (es : List Event) :
    m.after (e :: es) = (e.act m).after es := rfl

section Gathering
variable {α : Type}

/-- What events bring, where `bring` says what each of them does in the store that it meets. -/
def gathered (bring : Memory → Event → Option α) (m : Memory) : List Event → List α
  | [] => []
  | e :: es => (bring m e).toList ++ gathered bring (e.act m) es

end Gathering

section Calls

theorem state_run (m : Memory) (c : Call) : (store.run c m).2 =
    match c with
    | .readSchema id => (store.readSchema id m).2
    | .addCollection parent title ps => (store.addCollection parent title ps m).2
    | .extendSchema source ps => (store.extendSchema source ps m).2
    | .addRecord source ps => (store.addRecord source ps m).2
    | .readRecord id => (store.readRecord id m).2
    | .changeRecord id change => (store.changeRecord id change m).2
    | .query source q => (store.query source q m).2 := by
  cases c <;> exact Effect.state_map _ _ _

theorem changeRecord_store_cases (m : Memory) (id : String) (change : Change) :
    (∃ s c, s ∈ m.records ∧ s.record.id = id ∧ m.collectionOf s.source = .ok c ∧
      store.changeRecord id change m =
        (.ok (changed c.properties (m.writes + 1) change s.record),
          (m.noted [.changeRecord id change]).withChanged
            (changed c.properties (m.writes + 1) change s.record))) ∨
    ∃ e, store.changeRecord id change m = (.error e, m.noted [.changeRecord id change]) := by
  rcases hanswer : store.changeRecord id change m with ⟨e | r, m'⟩
  · exact .inr ⟨e, by rw [changeRecord_store_eq_error hanswer]⟩
  · obtain ⟨s, c, hs, hid, hc, rfl, rfl⟩ := changeRecord_store_eq_ok hanswer
    exact .inl ⟨s, c, hs, hid, hc, rfl⟩

theorem SameData.readRecord (m : Memory) (id : String) :
    SameData m (store.readRecord id m).2 := by
  unfold Store.readRecord
  rw [Effect.run_bind]
  have hstart := SameData.startRead m id
  rcases hread : store.startRead id m with ⟨_ | _, m₁⟩ <;> rw [hread] at hstart
  · exact hstart
  · exact hstart.trans (SameData.finishRead m₁ id)

theorem addCollection_store_cases (m : Memory) (parent title : String) (ps : Properties) :
    (∃ ref, store.addCollection parent title ps m = (.ok ref,
      (Memory.addCollection ps (m.noted [.addCollection parent title ps])).2)) ∨
    ∃ e, store.addCollection parent title ps m =
      (.error e, m.noted [.addCollection parent title ps]) := by
  rcases state_perform (.addCollection parent title ps)
    (fun m => .ok (Memory.addCollection ps m)) m with ⟨ref, m', hdone, heq⟩ | hrefused
  · refine .inl ⟨ref, heq.trans ?_⟩
    rw [Except.ok.inj hdone]
  · exact .inr hrefused

end Calls

/-- What an event does to the records of a store. -/
inductive Done (m : Memory) : Event → Memory → Prop
  | added {source : String} {ps : Properties} {c : Collection}
      (hc : m.collectionOf source = .ok c)
      (hanswer : (store.addRecord source ps m).1 = .ok (m.newRecord c source ps)) :
      Done m (.call (.addRecord source ps))
        ((m.noted [.addRecord source ps]).withRecord ⟨source, m.newRecord c source ps⟩)
  | changed {change : Change} {s : SourcedRecord} {c : Collection} (hs : s ∈ m.records)
      (hc : m.collectionOf s.source = .ok c)
      (hanswer : (store.changeRecord s.record.id change m).1 =
        .ok (changed c.properties (m.writes + 1) change s.record)) :
      Done m (.call (.changeRecord s.record.id change))
        ((m.noted [.changeRecord s.record.id change]).withChanged
          (Memory.changed c.properties (m.writes + 1) change s.record))
  | unwritten {e : Event} {m' : Memory} (hrecords : m'.records = m.records)
      (hwrites : m'.writes = m.writes)
      (hadd : ∀ source ps, e = .call (.addRecord source ps) →
        ∃ x, (store.addRecord source ps m).1 = .error x)
      (hchange : ∀ id change, e = .call (.changeRecord id change) →
        ∃ x, (store.changeRecord id change m).1 = .error x) :
      Done m e m'

/-- Events that are no writes of records. -/
theorem Done.of_records {e : Event} (hrecords : m'.records = m.records)
    (hwrites : m'.writes = m.writes) (hadd : ∀ source ps, e ≠ .call (.addRecord source ps))
    (hchange : ∀ id change, e ≠ .call (.changeRecord id change)) : Done m e m' :=
  .unwritten hrecords hwrites (fun _ _ he => absurd he (hadd _ _))
    fun _ _ he => absurd he (hchange _ _)

theorem SameData.done (h : SameData m m') {e : Event}
    (hadd : ∀ source ps, e ≠ .call (.addRecord source ps))
    (hchange : ∀ id change, e ≠ .call (.changeRecord id change)) : Done m e m' :=
  .of_records h.records h.writes hadd hchange

theorem done_run (m : Memory) (c : Call) : Done m (.call c) (store.run c m).2 := by
  rw [state_run]
  cases c with
  | readSchema id => exact (SameData.readSchema m id).done (by simp) (by simp)
  | addCollection parent title ps =>
    rcases addCollection_store_cases m parent title ps with ⟨ref, h⟩ | ⟨e, h⟩
    · simp only [h]
      exact .of_records rfl rfl (by simp) (by simp)
    · simp only [h]
      exact .of_records rfl rfl (by simp) (by simp)
  | extendSchema source ps =>
    rcases extendSchema_store_cases m source ps with ⟨c, -, h⟩ | ⟨e, h⟩
    · simp only [h]
      exact .of_records rfl rfl (by simp) (by simp)
    · simp only [h]
      exact .of_records rfl rfl (by simp) (by simp)
  | addRecord source ps =>
    rcases addRecord_store_cases m source ps with ⟨c, hc, h⟩ | ⟨e, h⟩
    · simp only [h]
      exact .added hc (congrArg Prod.fst h)
    · simp only [h]
      refine .unwritten rfl rfl (fun _ _ he => ?_) (by simp)
      cases he
      exact ⟨e, congrArg Prod.fst h⟩
  | readRecord id => exact (SameData.readRecord m id).done (by simp) (by simp)
  | changeRecord id change =>
    rcases changeRecord_store_cases m id change with ⟨s, c, hs, rfl, hc, h⟩ | ⟨e, h⟩
    · simp only [h]
      exact .changed hs hc (congrArg Prod.fst h)
    · simp only [h]
      refine .unwritten rfl rfl (by simp) fun _ _ he => ?_
      cases he
      exact ⟨e, congrArg Prod.fst h⟩
  | query source q => exact (SameData.query m source q).done (by simp) (by simp)

theorem done_act (m : Memory) (e : Event) : Done m e (e.act m) := by
  cases e with
  | call c => exact done_run m c
  | startRead id => exact (SameData.startRead m id).done (by simp) (by simp)
  | finishRead id => exact (SameData.finishRead m id).done (by simp) (by simp)
  | seed c => exact .of_records rfl rfl (by simp) (by simp)
  | failWith method message => exact .of_records rfl rfl (by simp) (by simp)
  | clearFailures => exact .of_records rfl rfl (by simp) (by simp)
  | clearCalls => exact .of_records rfl rfl (by simp) (by simp)
  | setHidesMore flag => exact .of_records rfl rfl (by simp) (by simp)

section Schemas

/-- Every schema is in key order. -/
def SchemasSorted (m : Memory) : Prop :=
  ∀ id c, m.collections.get? id = some c → c.properties.Sorted

namespace SchemasSorted

theorem of_collectionOf (h : m.SchemasSorted) (hc : m.collectionOf source = .ok c) :
    c.properties.Sorted := by
  obtain ⟨id, -, hid⟩ := collectionOf_eq_ok.mp hc
  exact h id c hid

theorem congr (h : m.SchemasSorted) (hm' : m'.collections = m.collections) : m'.SchemasSorted := by
  unfold SchemasSorted
  rw [hm']
  exact h

theorem insert (h : m.SchemasSorted) (hs : c.properties.Sorted)
    (hm' : m'.collections = m.collections.insert id c) : m'.SchemasSorted := by
  intro other c' hc'
  rw [hm', KeyMap.get?_insert] at hc'
  split at hc'
  next => exact Option.some.inj hc' ▸ hs
  next => exact h other c' hc'

theorem run (h : m.SchemasSorted) {call : Call} (hcall : call.Ordered) :
    (store.run call m).2.SchemasSorted := by
  rw [state_run]
  cases call with
  | readSchema id => exact h.congr (SameData.readSchema m id).collections
  | addCollection parent title ps =>
    rcases addCollection_store_cases m parent title ps with ⟨ref, hrun⟩ | ⟨e, hrun⟩
    · simp only [hrun]
      exact h.insert (KeyMap.Sorted.map hcall Stamp.tagged) rfl
    · simp only [hrun]
      exact h
  | extendSchema source ps =>
    rcases extendSchema_store_cases m source ps with ⟨c, hc, hrun⟩ | ⟨e, hrun⟩
    · simp only [hrun]
      exact h.insert ((h.of_collectionOf hc).union _) rfl
    · simp only [hrun]
      exact h
  | addRecord source ps =>
    rcases addRecord_store_cases m source ps with ⟨c, hc, hrun⟩ | ⟨e, hrun⟩
    · simp only [hrun]
      exact h
    · simp only [hrun]
      exact h
  | readRecord id => exact h.congr (SameData.readRecord m id).collections
  | changeRecord id change =>
    rcases changeRecord_store_cases m id change with ⟨s, c, -, -, -, hrun⟩ | ⟨e, hrun⟩
    · simp only [hrun]
      exact h
    · simp only [hrun]
      exact h
  | query source q => exact h.congr (SameData.query m source q).collections

theorem act (h : m.SchemasSorted) {e : Event} (he : e.Ordered) : (e.act m).SchemasSorted := by
  cases e with
  | call c => exact h.run he
  | seed c => exact h.insert (KeyMap.Sorted.map he Stamp.tagged) rfl
  | startRead id => exact h.congr (SameData.startRead m id).collections
  | finishRead id => exact h
  | failWith method message => exact h
  | clearFailures => exact h
  | clearCalls => exact h
  | setHidesMore flag => exact h

end SchemasSorted
end Schemas

/-- A store between events whose maps are in key order. -/
structure InOrder (m : Memory) : Prop where
  ids : m.Numbered
  schemas : m.SchemasSorted

theorem inOrder_empty : Memory.empty.InOrder := ⟨rfl, nofun⟩

theorem Done.numbered {e : Event} (hdone : Done m e m') (h : m.Numbered) : m'.Numbered := by
  cases hdone with
  | added => exact Numbered.withRecord h rfl
  | changed => exact Numbered.withChanged h _
  | unwritten hrecords => exact h.congr hrecords

theorem InOrder.act (h : m.InOrder) {e : Event} (he : e.Ordered) : (e.act m).InOrder :=
  ⟨(done_act m e).numbered h.ids, h.schemas.act he⟩

theorem InOrder.after (h : m.InOrder) {es : List Event} (hes : ∀ e ∈ es, e.Ordered) :
    (m.after es).InOrder := by
  induction es generalizing m with
  | nil => exact h
  | cons e es ih =>
    obtain ⟨he, hes⟩ := List.forall_mem_cons.mp hes
    exact ih (h.act he) hes

end Memory
end DocTables
