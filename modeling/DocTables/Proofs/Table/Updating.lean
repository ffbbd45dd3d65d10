import DocTables.Proofs.Column.Rows
import DocTables.Proofs.Store.Edited
import DocTables.Proofs.Workspace.SameData

/-!
Updates. An update makes one call for each of its targets, in order, until the store refuses one,
and touches nothing but what these calls are about.
-/
namespace DocTables
open Outcome

namespace Workspace
open Effect
variable {w w₁ w' : Workspace} {name : String} {m m' : Memory}

/-- The workspace is as before, but for one store. -/
structure Becomes (name : String) (m : Memory) (w w' : Workspace) : Prop where
  store : w'.memory name = m
  others : ∀ other, other ≠ name → w'.memory other = w.memory other
  contexts : w'.contexts = w.contexts
  relations : w'.relations = w.relations
  handles : w'.handles = w.handles
  tables : w'.tables = w.tables

theorem Becomes.refl (name : String) (w : Workspace) : Becomes name (w.memory name) w w :=
  ⟨rfl, fun _ _ => rfl, rfl, rfl, rfl, rfl⟩

theorem Becomes.setMemory (h : Becomes name m w w₁) (m' : Memory) :
    Becomes name m' w (w₁.setMemory name m') := by
  refine ⟨memory_setMemory _ _ _, fun other hother => ?_, h.contexts, h.relations, h.handles,
    h.tables⟩
  rw [memory_setMemory_of_ne hother]
  exact h.others other hother

theorem Becomes.trans (h : Becomes name m w w₁) (h' : Becomes name m' w₁ w') :
    Becomes name m' w w' :=
  ⟨h'.store, fun other hother => (h'.others other hother).trans (h.others other hother),
    h'.contexts.trans h.contexts, h'.relations.trans h.relations, h'.handles.trans h.handles,
    h'.tables.trans h.tables⟩

variable {t : Table} {targets : Targets} {length : Nat} {ids : List String}

/-- The records that an update or a move is for: those with the given ids, or the first live ones
that the criteria find. The calls are what finding them takes. -/
inductive Resolves (w : Workspace) (t : Table) (targets : Targets) (length : Nat) :
    List String → List Call → Prop
  | given {ids : List String} (h : targets.records = some ids) :
      Resolves w t targets length ids []
  | found {filter : Option Json} (h : targets.records = none)
      (hfilter : targets.criteria.filterJson = .ok filter) :
      Resolves w t targets length
        ((((w.memory t.store).found t.collection.source filter targets.criteria.sortsJson).take
          (t.limits.pageLength (some length))).map Record.id)
        [.query t.collection.source ⟨filter, targets.criteria.sortsJson,
          some (t.limits.pageLength (some length)), none⟩]

theorem resolve_ok (h : t.resolve storeAt targets length w = (.ok ids, w')) :
    ∃ calls, Resolves w t targets length ids calls ∧
      Becomes t.store ((w.memory t.store).noted calls) w w' := by
  unfold Table.resolve at h
  cases hrecords : targets.records with
  | some given =>
    rw [hrecords] at h
    obtain ⟨hids, rfl⟩ := Prod.mk.inj h
    obtain rfl := Except.ok.inj hids
    refine ⟨[], .given hrecords, ?_⟩
    simpa [Memory.noted] using Becomes.refl t.store w
  | none =>
    rw [hrecords] at h
    obtain ⟨q, w₁, hchecked, hfind⟩ := run_bind_eq_ok h
    obtain ⟨hq, rfl⟩ := Prod.mk.inj hchecked
    obtain ⟨filter, hfilter, hq⟩ := bind_eq_ok.mp hq
    obtain rfl := Except.ok.inj hq
    obtain ⟨page, w₂, hpage, heq⟩ := run_bind_eq_ok hfind
    obtain ⟨hids, rfl⟩ := Prod.mk.inj heq
    obtain ⟨m, hm, rfl⟩ := onStore_eq (asking_eq_ok hpage)
    obtain ⟨hrecords', rfl⟩ := Memory.query_ok rfl hm
    have hlength : max 1 (t.limits.pageLength (some length)) =
        t.limits.pageLength (some length) := max_eq_right (le_max_left _ _)
    refine ⟨_, ?_, Becomes.setMemory (.refl t.store w) _⟩
    rw [← Except.ok.inj hids, hrecords']
    simp only [Option.getD_some, hlength]
    exact .found hrecords hfilter

end Workspace

/-- The rows that an update answers with. -/
def Updated.rows : Updated → List DecodedRecord
  | one row => [row]
  | all rows => rows

/-- Which of the ids that were found an update is for. -/
def UpdatePlan.targeted (p : UpdatePlan) (ids : List String) : List String :=
  if p.isWide then ids else ids.take 1

section Changes
open Effect Workspace
variable {t : Table} {ps : Properties} {m m₁ m' : Memory} {ids : List String} {w w' : Workspace}

/-- Calls that change the records with these ids, one after the other. Each row is the record as its
own call left it. -/
inductive Changes (t : Table) (ps : Properties) :
    Memory → List String → List DecodedRecord → Memory → Prop
  | nil {m : Memory} : Changes t ps m [] [] m
  | cons {m m₁ m' : Memory} {id : String} {ids : List String} {e : DecodedRecord}
      {rows : List DecodedRecord}
      (hcall : Memory.store.changeRecord id (.properties ps) m = (.ok e.record, m₁))
      (hrecord : m₁.record? id = some e.record) (hdecode : t.columns.decode e.record = .ok e)
      (hrest : Changes t ps m₁ ids rows m') : Changes t ps m (id :: ids) (e :: rows) m'

theorem Changes.accepted {rows : List DecodedRecord} (h : Changes t ps m ids rows m') :
    Memory.Accepted (.properties ps) m ids m' := by
  induction h with
  | nil => exact .nil
  | cons hcall _ _ _ ih => exact .cons hcall ih

theorem run_change (t : Table) (ps : Properties) (id : String) (w : Workspace) :
    t.change storeAt ps id w =
      match Memory.store.changeRecord id (.properties ps) (w.memory t.store) with
      | (.ok r, m) => (t.columns.decode r, w.setMemory t.store m)
      | (.error e, m) =>
        (.error (.storeFailed (.update id t.title) e.message), w.setMemory t.store m) := by
  refine (run_asking_checked _ _ (Memory.store.changeRecord id (.properties ps)) _ _).trans ?_
  rcases Memory.store.changeRecord id (.properties ps) (w.memory t.store) with ⟨_ | _, _⟩ <;> rfl

end Changes

namespace Workspace
open Effect
variable {t : Table} {row : Row} {p : UpdatePlan} {ps : Properties} {ids : List String}
  {w w₁ w' : Workspace}

/-- An update is the changes of its targets. -/
theorem update_ok {out : Updated} (h : t.update storeAt row p w = (.ok out, w')) :
    ∃ ps ids w₁, t.columns.updateProperties row = .ok ps ∧
      t.resolve storeAt p.targets (t.updateLength p) w = (.ok ids, w₁) ∧ p.targeted ids ≠ [] ∧
      (p.targeted ids).mapM (t.change storeAt ps) w₁ = (.ok out.rows, w') ∧
      (p.isWide = true ↔ ∃ rows, out = .all rows) := by
  obtain ⟨ps, w₀, hchecked, h⟩ := run_bind_eq_ok h
  obtain ⟨hps, rfl⟩ := Prod.mk.inj hchecked
  obtain ⟨ids, w₁, hids, h⟩ := run_bind_eq_ok h
  refine ⟨ps, ids, w₁, hps, hids, ?_⟩
  unfold UpdatePlan.targeted
  cases ids with
  | nil => exact nomatch (Prod.mk.inj h).1
  | cons first rest =>
    simp only at h
    split at h
    next hwide =>
      obtain ⟨rows, w₂, hrows, h⟩ := run_bind_eq_ok h
      obtain ⟨hout, rfl⟩ := Prod.mk.inj h
      obtain rfl := Except.ok.inj hout
      rw [if_pos hwide]
      exact ⟨List.cons_ne_nil _ _, hrows, fun _ => ⟨rows, rfl⟩, fun _ => hwide⟩
    next hwide =>
      obtain ⟨e, w₂, he, h⟩ := run_bind_eq_ok h
      obtain ⟨hout, rfl⟩ := Prod.mk.inj h
      obtain rfl := Except.ok.inj hout
      rw [if_neg hwide]
      refine ⟨List.cons_ne_nil _ _, ?_, fun h => absurd h hwide, fun ⟨rows, h⟩ => nomatch h⟩
      rw [List.take_succ_cons, List.take_zero, List.mapM_cons, run_bind_ok he]
      rfl

/-- A table of scores, which may be null. -/
def scoreTable : Table :=
  ⟨1, "Scores", ⟨[("score", { Column.ofType .number "Score" with acceptsNull := true })]⟩,
    ⟨"new-col-1", "new-ds-1"⟩, "m", 0, {}⟩

/-- A store with the collection of the table and one record. -/
def scoreMemory : Memory :=
  (Memory.store.run (.addRecord "new-ds-1" .empty)
    (Memory.store.run (.addCollection "page" "Scores" scoreTable.columns.schema) .empty).2).2

def scoreWorkspace : Workspace := Workspace.empty.setMemory "m" scoreMemory

theorem reachable_scoreMemory : (scoreWorkspace.memory scoreTable.store).Reachable := by
  rw [scoreWorkspace, show scoreTable.store = "m" from rfl, memory_setMemory]
  exact .call (.call .empty _) _

end Workspace
end DocTables
