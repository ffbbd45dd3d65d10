import DocTables.Proofs.Table.Refusing
import DocTables.Proofs.Table.Updating

/-!
Failures of operations that write. The store has refused a call, or all data are as they were, or a
record has been written that its table cannot decode. The error tells these cases apart.
-/
namespace DocTables

namespace Memory

/-- The record was the last to be written. -/
def Latest (m : Memory) (r : Record) : Prop :=
  (∃ s ∈ m.records, s.record = r) ∧ r.edited = some (Stamp.time m.writes)

/-- A write of a record that answers with the record as it is held then. -/
structure Answers (act : StoreM Memory Record) : Prop where
  le : ∀ m, m.writes ≤ (act m).2.writes
  written : ∀ m r m', act m = (.ok r, m') → m.writes < m'.writes ∧ m'.Latest r

theorem answers_perform {call : Call} {act : Memory → Except StoreError (Record × Memory)}
    (hact : ∀ m r m', act m = .ok (r, m') → m'.writes = m.writes + 1 ∧ m'.Latest r) :
    Answers (perform call act) := by
  constructor
  · intro m
    rcases state_perform call act m with ⟨r, m', hdone, heq⟩ | ⟨e, heq⟩
    · rw [heq, (hact _ _ _ hdone).1]
      exact Nat.le_succ _
    · rw [heq]
      exact Nat.le_refl _
  · intro m r m' h
    obtain ⟨hwrites, hlatest⟩ := hact _ _ _ (of_perform call act h)
    exact ⟨hwrites ▸ Nat.lt_succ_self _, hlatest⟩

theorem answers_addRecord (source : String) (ps : Properties) :
    Answers (store.addRecord source ps) := by
  refine answers_perform fun m r m' h => ?_
  obtain ⟨c, -, heq⟩ := addRecord_eq_ok.mp h
  obtain ⟨rfl, rfl⟩ := Prod.mk.inj heq
  exact ⟨rfl, ⟨_, List.mem_append_right _ (List.mem_singleton_self _), rfl⟩, rfl⟩

theorem answers_changeRecord (id : String) (change : Change) :
    Answers (store.changeRecord id change) := by
  refine answers_perform fun m r m' h => ?_
  obtain ⟨s, c, hs, -, -, heq⟩ := changeRecord_eq_ok h
  obtain ⟨rfl, rfl⟩ := Prod.mk.inj heq
  refine ⟨rfl, ⟨_, List.mem_map_of_mem hs, ?_⟩, rfl⟩
  rw [if_pos (id_changed _ _ _ _).symm]

end Memory

namespace Workspace
open Effect
variable {α : Type} {I : Workspace → Prop} {w₀ w w' : Workspace} {t : Table} {e : TableError}

/-- Records have been written, and the table cannot decode the last of them. -/
structure Unread (t : Table) (e : TableError) (w w' : Workspace) : Prop where
  written : (w.memory t.store).writes < (w'.memory t.store).writes
  refused : ∃ r, (w'.memory t.store).Latest r ∧ t.columns.decode r = .error e

/-- How an operation that began in `w₀` fails, if the records it writes are decoded by a table. -/
inductive Failure (w₀ : Workspace) (answers? : Option Table) (e : TableError) (w' : Workspace) :
    Prop
  | ofStore (h : e.fromStore = true)
  | early (h : e.ofRecord = false) (hsame : w₀.SameData w')
  | late {t : Table} (ht : answers? = some t) (h : Unread t e w₀ w')

variable {answers? : Option Table}

theorem failsAs_asking (use : StoreUse) (act : StoreM Workspace α) :
    FailsAs I (Failure w₀ answers?) (asking use act) := by
  intro w _ e w' h
  obtain ⟨cause, -, rfl⟩ := asking_eq_error h
  exact .ofStore rfl

theorem failsAs_bind_checked {β : Type} {r : Except TableError α} {f : α → TableM Workspace β}
    (hr : OfRequest r) (hf : ∀ a, FailsAs (SameData w₀) (Failure w₀ answers?) (f a)) :
    FailsAs (SameData w₀) (Failure w₀ answers?) (checked r >>= f) :=
  .bind_checked (fun e he _ hs => .early (hr e he) hs) hf

theorem failsAs_resolve (t : Table) (targets : Targets) (length : Nat) :
    FailsAs (SameData w₀) (Failure w₀ answers?) (t.resolve storeAt targets length) := by
  unfold Table.resolve
  split
  · exact .pure _
  · apply failsAs_bind_checked (Criteria.ofRequest_query _ _ _)
    intro q
    exact (failsAs_asking _ _).bind_pure _

section Answering
variable {act : StoreM Memory Record} {use : StoreUse}

/-- No write to the store of the table is undone. -/
def Grown (w₀ : Workspace) (t : Table) (w : Workspace) : Prop :=
  (w₀.memory t.store).writes ≤ (w.memory t.store).writes

theorem SameData.grown (h : SameData w₀ w) (t : Table) : Grown w₀ t w :=
  (h.memory t.store).writes.ge

theorem grown_answer (hact : Memory.Answers act) :
    Keeps (Grown w₀ t) (asking use (onStore t.store act) >>= t.decode) := by
  apply Keeps.bind
  · apply Keeps.asking
    intro w hw
    rw [onStore_apply]
    unfold Grown
    rw [memory_setMemory]
    exact Nat.le_trans hw (hact.le _)
  · exact fun r => keeps_decode t r

theorem failsAs_answer (hact : Memory.Answers act) :
    FailsAs (Grown w₀ t) (Failure w₀ (some t))
      (asking use (onStore t.store act) >>= t.decode) := by
  intro w hw e w' h
  rcases run_bind_eq_error h with hrefused | ⟨r, w₁, hanswer, hrun⟩
  · exact failsAs_asking _ _ w hw e w' hrefused
  · obtain ⟨hdecode, rfl⟩ := Prod.mk.inj hrun
    obtain ⟨m, hm, rfl⟩ := onStore_eq (asking_eq_ok hanswer)
    obtain ⟨hwritten, hlatest⟩ := hact.written _ _ _ hm
    apply Failure.late rfl
    constructor
    · rw [memory_setMemory]
      exact Nat.lt_of_le_of_lt hw hwritten
    · rw [memory_setMemory]
      exact ⟨r, hlatest, hdecode⟩

theorem failsAs_add (t : Table) (ps : Properties) :
    FailsAs (Grown w₀ t) (Failure w₀ (some t)) (t.add storeAt ps) :=
  failsAs_answer (Memory.answers_addRecord _ ps)

theorem grown_add (t : Table) (ps : Properties) : Keeps (Grown w₀ t) (t.add storeAt ps) :=
  grown_answer (Memory.answers_addRecord _ ps)

theorem failsAs_change (t : Table) (ps : Properties) (id : String) :
    FailsAs (Grown w₀ t) (Failure w₀ (some t)) (t.change storeAt ps id) :=
  failsAs_answer (Memory.answers_changeRecord id _)

theorem grown_change (t : Table) (ps : Properties) (id : String) :
    Keeps (Grown w₀ t) (t.change storeAt ps id) :=
  grown_answer (Memory.answers_changeRecord id _)

end Answering

theorem failsAs_insert (t : Table) (row : Row) :
    FailsAs (SameData w₀) (Failure w₀ (some t)) (t.insert storeAt row) := by
  apply failsAs_bind_checked (Columns.ofRequest_insertProperties _ row)
  intro ps
  exact (failsAs_add t ps).mono fun w hw => hw.grown t

theorem failsAs_insertAll (t : Table) (rows : List Row) :
    FailsAs (SameData w₀) (Failure w₀ (some t)) (t.insertAll storeAt rows) := by
  apply failsAs_bind_checked (.mapM (Columns.ofRequest_insertProperties _) rows)
  intro batch
  exact (FailsAs.mapM (failsAs_add t) (grown_add t) batch).mono fun w hw => hw.grown t

theorem failsAs_update (t : Table) (row : Row) (p : UpdatePlan) :
    FailsAs (SameData w₀) (Failure w₀ (some t)) (t.update storeAt row p) := by
  unfold Table.update
  apply failsAs_bind_checked (Columns.ofRequest_updateProperties _ row)
  intro ps
  apply (failsAs_resolve t p.targets _).bind ((keptByReads_sameData w₀).resolve t p.targets _)
  intro ids
  cases ids with
  | nil =>
    intro w hw e w' h
    obtain ⟨he, rfl⟩ := Prod.mk.inj h
    rw [← Except.error.inj he]
    exact .early rfl hw
  | cons first rest =>
    simp only
    split
    · have hall := FailsAs.mapM (w₀.failsAs_change t ps) (grown_change t ps) (first :: rest)
      exact (hall.mono fun w hw => hw.grown t).bind_pure _
    · exact ((failsAs_change t ps first).mono fun w hw => hw.grown t).bind_pure _

theorem failsAs_moveAll (t : Table) (flag : Bool) (targets : Targets) :
    FailsAs (SameData w₀) (Failure w₀ none) (t.moveAll storeAt flag targets) := by
  unfold Table.moveAll
  apply (failsAs_resolve t targets _).bind ((keptByReads_sameData w₀).resolve t targets _)
  intro ids
  -- Flags are set without decoding the answers, so from here on only the store can fail.
  have hflags : FailsAs (fun _ => True) (Failure w₀ none) (ids.forM (t.setFlag storeAt flag)) :=
    .forM (fun id => (failsAs_asking _ _).bind_pure _) (fun _ _ _ => trivial) ids
  exact (hflags.mono fun _ _ => trivial).bind_pure _

theorem failsAs_link (links : List Link) :
    FailsAs (SameData w₀) (Failure w₀ none) (link links) := by
  apply failsAs_bind_checked (Link.ofRequest_updates links)
  intro updates
  -- Targets are registered before the schemas are touched, and nothing but a call can fail then.
  have hsend : FailsAs (fun _ => True) (Failure w₀ none) (Link.send storeAt updates) :=
    .forM (fun u => failsAs_asking _ _) (fun _ _ _ => trivial) updates
  have hall : FailsAs (fun _ => True) (Failure w₀ none) (do
      modify fun w => links.foldl (fun w l => w.setTarget l.source l.key l.target) w
      Link.send storeAt updates) :=
    FailsAs.bind (fun _ _ _ _ h => nomatch (Prod.mk.inj h).1) (fun _ _ => trivial) fun _ => hsend
  exact hall.mono fun _ _ => trivial

end Workspace

/-- An operation that writes to stores. -/
inductive Write where
  | insert (t : Table) (row : Row)
  | insertAll (t : Table) (rows : List Row)
  | update (t : Table) (row : Row) (p : UpdatePlan)
  | archive (t : Table) (targets : Targets)
  | restore (t : Table) (targets : Targets)
  | link (links : List Link)

namespace Write
open Workspace Effect
variable {w w' : Workspace} {e : TableError}

/-- The operation, its answer aside. -/
def run : Write → TableM Workspace Unit
  | insert t row => (fun _ => ()) <$> t.insert storeAt row
  | insertAll t rows => (fun _ => ()) <$> t.insertAll storeAt rows
  | update t row p => (fun _ => ()) <$> t.update storeAt row p
  | archive t targets => (fun _ => ()) <$> t.archive storeAt targets
  | restore t targets => (fun _ => ()) <$> t.restore storeAt targets
  | link links => Workspace.link links

/-- The table that decodes the records that are written, if they are decoded. -/
def answers? : Write → Option Table
  | insert t _ | insertAll t _ | update t _ _ => some t
  | archive _ _ | restore _ _ | link _ => none

theorem failsAs_run (op : Write) (w : Workspace) :
    FailsAs (SameData w) (Failure w op.answers?) op.run := by
  cases op with
  | insert t row => exact (failsAs_insert t row).map _
  | insertAll t rows => exact (failsAs_insertAll t rows).map _
  | update t row p => exact (failsAs_update t row p).map _
  | archive t targets => exact (failsAs_moveAll t true targets).map _
  | restore t targets => exact (failsAs_moveAll t false targets).map _
  | link links => exact failsAs_link links

/-- Unless the store refuses a call, an operation that fails has changed nothing, or it has written
a record that cannot be decoded. Moves and links do not decode what they write. -/
theorem failure_settles (op : Write) (h : op.run w = (.error e, w')) (he : e.fromStore = false) :
    (e.ofRecord = false ∧ w.SameData w') ∨
      (e.ofRecord = true ∧ ∃ t, op.answers? = some t ∧ Unread t e w w') := by
  cases failsAs_run op w w (.refl w) e w' h with
  | ofStore hstore => exact absurd hstore (by simp [he])
  | early hrequest hsame => exact .inl ⟨hrequest, hsame⟩
  | @late t ht hunread =>
    obtain ⟨r, -, hdecode⟩ := hunread.refused
    exact .inr ⟨Columns.ofRecord_of_decode hdecode, t, ht, hunread⟩

/-- A table of points by name. -/
def pointTable : Table :=
  ⟨1, "Points", ⟨[("name", Column.ofType .title "Name"), ("points", .ofType .number "Points")]⟩,
    ⟨"new-col-1", "new-ds-1"⟩, "m", 0, {}⟩

/-- A store with a record of the table whose name is no title. -/
def pointMemory : Memory :=
  (Memory.store.run (.addRecord "new-ds-1" (.ofList [("Name", Codec.richText.empty)]))
    (Memory.store.run (.addCollection "page" "Points" pointTable.columns.schema) .empty).2).2

def pointWorkspace : Workspace := Workspace.empty.setMemory "m" pointMemory

def pointUpdate : Write :=
  .update pointTable ⟨[("points", .int 2)]⟩ { targets := { records := some ["rec-1"] } }

theorem reachable_pointWorkspace (name : String) : (pointWorkspace.memory name).Reachable := by
  by_cases hname : name = "m"
  · rw [hname, pointWorkspace, memory_setMemory]
    exact .call (.call .empty _) _
  · rw [pointWorkspace, memory_setMemory_of_ne hname]
    exact .empty

theorem failure_settles_points :
    ∃ w', pointUpdate.run pointWorkspace = (.error (.badValue "name" .noTitleArray), w') ∧
      Unread pointTable (.badValue "name" .noTitleArray) pointWorkspace w' := by
  obtain ⟨w', hrun⟩ : ∃ w', pointUpdate.run pointWorkspace =
      (.error (.badValue "name" .noTitleArray), w') := ⟨_, rfl⟩
  refine ⟨w', hrun, ?_⟩
  rcases failure_settles pointUpdate hrun rfl with ⟨hrecord, -⟩ | ⟨-, t, ht, hunread⟩
  · exact nomatch hrecord
  · obtain rfl := Option.some.inj ht
    exact hunread

/-- Not every failure without a refused call leaves the records as they were. -/
theorem exists_failure_after_write :
    ¬ ∀ (w : Workspace) (op : Write) (e : TableError) (w' : Workspace),
      (∀ name, (w.memory name).Reachable) → op.run w = (.error e, w') → e.fromStore = false →
      ∀ name, (w'.memory name).records = (w.memory name).records ∧
        (w'.memory name).collections = (w.memory name).collections := by
  intro h
  have hrecords := (h pointWorkspace pointUpdate _ _ reachable_pointWorkspace rfl rfl "m").1
  have hedited := congrArg (List.map (·.record.edited)) hrecords
  have htimes : [some (Stamp.time 2)] = [some (Stamp.time 1)] := hedited
  exact absurd htimes (by decide)

end Write
end DocTables
