import DocTables.Proofs.Store.Kept

/-!
Stores that hold the same data. Reading and refusing change nothing but the notes of calls and of
the reads under way, and what is read depends on nothing else than the data.
-/
namespace DocTables.Memory
variable {α : Type} {m m' m'' : Memory}

/-- The same but for notes of calls and of reads. -/
structure SameData (m m' : Memory) : Prop where
  collections : m'.collections = m.collections
  sources : m'.sources = m.sources
  records : m'.records = m.records
  failures : m'.failures = m.failures
  writes : m'.writes = m.writes
  created : m'.created = m.created
  hidesMore : m'.hidesMore = m.hidesMore

namespace SameData

theorem refl (m : Memory) : SameData m m := ⟨rfl, rfl, rfl, rfl, rfl, rfl, rfl⟩

theorem trans (h : SameData m m') (h' : SameData m' m'') : SameData m m'' :=
  ⟨h'.collections.trans h.collections, h'.sources.trans h.sources, h'.records.trans h.records,
    h'.failures.trans h.failures, h'.writes.trans h.writes, h'.created.trans h.created,
    h'.hidesMore.trans h.hidesMore⟩

theorem noted (m : Memory) (calls : List Call) : SameData m (m.noted calls) :=
  ⟨rfl, rfl, rfl, rfl, rfl, rfl, rfl⟩

theorem perform {call : Call} {act : Memory → Except StoreError (α × Memory)}
    (hact : ∀ a m', act (m.noted [call]) = .ok (a, m') → SameData (m.noted [call]) m') :
    SameData m (perform call act m).2 :=
  holds_perform (noted m [call]) fun a m' hdone => (noted m [call]).trans (hact a m' hdone)

theorem query (m : Memory) (source : String) (q : Query) :
    SameData m (store.query source q m).2 := by
  refine perform fun page m' hpage => ?_
  obtain ⟨_, -, heq⟩ := Outcome.map_eq_ok.mp hpage
  obtain ⟨-, rfl⟩ := Prod.mk.inj heq
  exact refl _

theorem startRead (m : Memory) (id : String) : SameData m (store.startRead id m).2 := by
  refine perform fun _ m' hread => ?_
  obtain ⟨-, rfl⟩ := Prod.mk.inj (Except.ok.inj hread)
  exact ⟨rfl, rfl, rfl, rfl, rfl, rfl, rfl⟩

theorem finishRead (m : Memory) (id : String) : SameData m (store.finishRead id m).2 :=
  ⟨rfl, rfl, rfl, rfl, rfl, rfl, rfl⟩

theorem readSchema (m : Memory) (id : String) : SameData m (store.readSchema id m).2 := by
  refine perform fun c m' hc => ?_
  unfold findCollection at hc
  split at hc
  next =>
    obtain ⟨-, rfl⟩ := Prod.mk.inj (Except.ok.inj hc)
    exact refl _
  next => simp at hc

theorem startRead_eq (h : SameData m m') (id : String) :
    (store.startRead id m').1 = (store.startRead id m).1 := by
  have hfailure : m'.failure? .readRecord = m.failure? .readRecord := by
    unfold failure?
    rw [h.failures]
  have hstart : ∀ m : Memory, (store.startRead id m).1 =
      (m.failure? .readRecord).elim (.ok ()) fun message => .error (.injected message) := by
    intro m
    rw [show m.failure? .readRecord = (m.noted [.readRecord id]).failure? .readRecord from rfl]
    unfold Memory.noted
    simp only [store, Memory.perform, Call.method]
    split <;> simp_all
  rw [hstart, hstart, hfailure]

theorem finishRead_eq (h : SameData m m') (id : String) :
    (store.finishRead id m').1 = (store.finishRead id m).1 := by
  have hfinish : ∀ m : Memory, (store.finishRead id m).1 =
      (m.record? id).elim (.error (.recordNotFound id)) .ok := fun _ => rfl
  rw [hfinish, hfinish, record?, record?, h.records]

end SameData
end DocTables.Memory
