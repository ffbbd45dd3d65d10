import DocTables.Proofs.Column.Declared
import DocTables.Proofs.Store.Archive
import DocTables.Proofs.Table.Updating

/-!
Updates of one record, one after the other. The record ends up with what was sent last for each of
its properties, and an update that is accepted on its own is accepted after any others.
-/
namespace DocTables
open Outcome

namespace Memory
variable {m : Memory} {id source : String} {c : Collection} {r : Record}

theorem sorted_changed (schema : Properties) (n : Nat) (change : Change)
    (h : r.properties.Sorted) : (changed schema n change r).properties.Sorted := by
  cases change with
  | properties ps => exact (h.union _).union _
  | archived flag => exact h.union _

/-- The record of this id, where it is, and what is declared there. -/
structure Finds (m : Memory) (id source : String) (c : Collection) (r : Record) : Prop where
  record : (m.records.find? fun s => s.record.id = id) = some ⟨source, r⟩
  collection : m.collectionOf source = .ok c

theorem Numbered.finds (h : m.Numbered) {s : SourcedRecord} (hs : s ∈ m.records)
    (hc : m.collectionOf s.source = .ok c) : m.Finds s.record.id s.source c s.record :=
  ⟨h.find?_id hs, hc⟩

namespace Finds

theorem record? (h : m.Finds id source c r) : m.record? id = some r := by
  rw [Memory.record?, h.record]
  rfl

theorem id_eq (h : m.Finds id source c r) : r.id = id := by simpa using List.find?_some h.record

/-- A change that the store does not refuse is one of this record, and finds it there again. -/
theorem changeRecord (h : m.Finds id source c r) (hworks : m.failure? .changeRecord = none)
    (change : Change) :
    ∃ m', store.changeRecord id change m =
        (.ok (changed c.properties (m.writes + 1) change r), m') ∧
      m'.Finds id source c (changed c.properties (m.writes + 1) change r) ∧
      m'.writes = m.writes + 1 ∧ m'.failures = m.failures := by
  let r' := changed c.properties (m.writes + 1) change r
  refine ⟨(m.noted [.changeRecord id change]).withChanged r', ?_, ⟨?_, h.collection⟩, rfl, rfl⟩
  · have hdone := changeRecord_of_find (m := m.noted [.changeRecord id change]) h.record
      h.collection change
    exact perform_eq_ok (.changeRecord id change) (Memory.changeRecord id change) hworks hdone
  · have hid : r'.id = id := (id_changed ..).trans h.id_eq
    have hrecords : ((m.noted [.changeRecord id change]).withChanged r').records =
        setRecord r' m.records := rfl
    rw [hrecords, find?_setRecord, h.record, Option.map_some, hid, if_pos h.id_eq]

end Finds
end Memory

section Amended
variable {schema ps : Properties} {changes changes' : List Properties} {now now' : String}
  {r r' r'' : Record}

/-- A record before and after some changes of its properties, the last of them at the time `now`.
What is not stamped holds what was sent for it last. -/
structure Amended (schema : Properties) (changes : List Properties) (now : String)
    (r r' : Record) : Prop where
  id : r'.id = r.id
  archived : r'.archived = r.archived
  created : r'.created = r.created
  url : r'.url = r.url
  sorted : r.properties.Sorted → r'.properties.Sorted
  same : changes = [] → r' = r
  edited : changes ≠ [] → r'.edited = some now
  stamped : changes ≠ [] → ∀ name, Stamp.Renews schema name →
    r'.properties.get? name = some (Stamp.property .lastEditedTime (.string now))
  sent : ∀ name, ¬ Stamp.Renews schema name → r'.properties.get? name =
    ((changes.filterMap (·.get? name)).getLast?.map Stamp.tagged).or (r.properties.get? name)

namespace Amended

theorem nil (schema : Properties) (now : String) (r : Record) : Amended schema [] now r r :=
  ⟨rfl, rfl, rfl, rfl, fun hr => hr, fun _ => rfl, fun h => absurd rfl h, fun h => absurd rfl h,
    fun _ _ => rfl⟩

/-- One change before others. -/
theorem cons (hps : ps.Sorted) (n : Nat)
    (hrest : Amended schema changes now (Memory.changed schema n (.properties ps) r) r')
    (hnow : changes = [] → Stamp.time n = now) : Amended schema (ps :: changes) now r r' := by
  have h := edited_changed schema hps n r
  refine ⟨hrest.id, hrest.archived, hrest.created, hrest.url,
    fun hr => hrest.sorted (Memory.sorted_changed schema n _ hr),
    fun hnil => absurd hnil (List.cons_ne_nil _ _), fun _ => ?_, fun _ name hname => ?_,
    fun name hname => ?_⟩
  · by_cases hnil : changes = []
    · rw [hrest.same hnil, h.edited, hnow hnil]
    · exact hrest.edited hnil
  · by_cases hnil : changes = []
    · rw [hrest.same hnil, h.stamped name hname, hnow hnil]
    · exact hrest.stamped hnil name hname
  · rw [hrest.sent name hname]
    cases hsent : ps.get? name with
    | none => simp only [List.filterMap_cons, hsent, h.kept name hname hsent]
    | some payload =>
      simp only [List.filterMap_cons, hsent, h.written name hname payload hsent,
        List.getLast?_cons]
      cases (changes.filterMap (·.get? name)).getLast? <;> rfl

/-- Of changes with the same payloads under every name the same comes. -/
theorem eq (h : Amended schema changes now r r') (h' : Amended schema changes' now r r'')
    (hr : r.properties.Sorted) (hnil : changes = [] ↔ changes' = [])
    (hsent : ∀ name, changes.filterMap (·.get? name) = changes'.filterMap (·.get? name)) :
    r' = r'' := by
  by_cases hnone : changes = []
  · rw [h.same hnone, h'.same (hnil.mp hnone)]
  · have hsome : changes' ≠ [] := fun h => hnone (hnil.mpr h)
    have hproperties : r'.properties = r''.properties := by
      refine (h.sorted hr).ext (h'.sorted hr) fun name => ?_
      by_cases hrenews : Stamp.Renews schema name
      · rw [h.stamped hnone name hrenews, h'.stamped hsome name hrenews]
      · rw [h.sent name hrenews, h'.sent name hrenews, hsent]
    have hid := h.id.trans h'.id.symm
    have harchived := h.archived.trans h'.archived.symm
    have hcreated := h.created.trans h'.created.symm
    have hedited := (h.edited hnone).trans (h'.edited hsome).symm
    have hurl := h.url.trans h'.url.symm
    cases r'
    cases r''
    exact Record.mk.injEq .. ▸ ⟨hid, harchived, hcreated, hedited, hurl, hproperties⟩

end Amended
end Amended

namespace Columns
variable {columns : Columns} {schema ps : Properties} {now : String} {r r' : Record}

theorem exists_decode_iff : (∃ d, columns.decode r = .ok d) ↔
    ∀ e ∈ columns.entries, ∃ o, decodeField r.properties e = .ok o := by
  constructor
  · rintro ⟨d, hd⟩ e he
    obtain ⟨os, hos, -⟩ := bind_eq_ok.mp (decode_eq_ok hd).2
    obtain ⟨o, -, ho⟩ := (exists_mem_of_forall₂ (mapM_eq_ok.mp hos)).1 e he
    exact ⟨o, ho⟩
  · intro hfields
    obtain ⟨os, hos⟩ := mapM_total hfields
    exact ⟨_, bind_eq_ok.mpr ⟨_, bind_eq_ok.mpr ⟨os, hos, rfl⟩, rfl⟩⟩

/-- The store stamps no property of another type than the one that its schema declares. -/
theorem type_of_renews (hs : schema.Sorted) {c : Column}
    (hdeclared : declared? schema c.name = some c.type.key) (h : Stamp.Renews schema c.name) :
    c.type = .lastEditedTime := by
  obtain ⟨config, hmem, htype⟩ := h
  rw [declared?, hs.get?_of_mem hmem, Option.bind_some, htype] at hdeclared
  exact (PropertyType.key_injective (Option.some.inj hdeclared)).symm

/-- Payloads of the right types do not keep a record from being decoded. -/
theorem decode_edited (hs : schema.Sorted) (hdeclared : columns.Declared schema)
    (hlowered : columns.Lowered ps) (h : Edited schema ps now r r')
    (hdecodes : ∃ d, columns.decode r = .ok d) : ∃ d, columns.decode r' = .ok d := by
  rw [exists_decode_iff] at hdecodes ⊢
  intro e he
  have hwritten : ∀ p, r'.properties.get? e.2.name = some p → Written e.2.type p →
      ∃ o, decodeField r'.properties e = .ok o := by
    intro p hp hwritten
    obtain ⟨v, hv⟩ := hwritten.ofWire_eq_ok
    exact ⟨some (e.1, v), by rw [decodeField, hp]; simp only [hv]; rfl⟩
  by_cases hrenews : Stamp.Renews schema e.2.name
  · refine hwritten _ (h.stamped _ hrenews) ?_
    rw [type_of_renews hs (hdeclared e he) hrenews]
    have hcontent : Stamp.content? .lastEditedTime .null now 0 = some (.string now) := rfl
    exact .stamped hcontent
  · cases hps : ps.get? e.2.name with
    | none =>
      obtain ⟨o, ho⟩ := hdecodes e he
      refine ⟨o, ?_⟩
      rwa [decodeField, h.kept _ hrenews hps, ← decodeField]
    | some payload =>
      refine hwritten _ (h.written _ hrenews payload hps) ?_
      obtain ⟨e', he', hname, hpayload⟩ := hlowered _ (KeyMap.mem_of_get? hps)
      have htype : e'.2.type = e.2.type := by
        have hdeclared' := hdeclared e' he'
        rw [hname, hdeclared e he] at hdeclared'
        exact (PropertyType.key_injective (Option.some.inj hdeclared')).symm
      exact htype ▸ hpayload

end Columns

/-- An update as a client asks for it. -/
structure Edit where
  row : Row
  plan : UpdatePlan

/-- The update is for one record, given by its id. -/
def Edit.Of (id : String) (e : Edit) : Prop := e.plan.targets.records = some [id]

/-- What updates send when they are accepted. -/
abbrev Columns.Sends (columns : Columns) (es : List Edit) (changes : List Properties) : Prop :=
  List.Forall₂ (fun e ps => columns.updateProperties e.row = .ok ps) es changes

/-- Updates one after the other, up to the first that fails. -/
def Table.updates (t : Table) (es : List Edit) : TableM Workspace (List Updated) :=
  es.mapM fun e => t.update Workspace.storeAt e.row e.plan

namespace Workspace
open Effect
variable {t : Table} {e : Edit} {es : List Edit} {id : String} {ps : Properties} {c : Collection}
  {r : Record} {w w' : Workspace}

/-- An update of one record by its id is one change of it. -/
theorem run_update_of (he : e.Of id) (hps : t.columns.updateProperties e.row = .ok ps) :
    t.update storeAt e.row e.plan w =
      match t.change storeAt ps id w with
      | (.ok d, w') => (.ok (if e.plan.isWide then .all [d] else .one d), w')
      | (.error cause, w') => (.error cause, w') := by
  have hchecked : (checked (t.columns.updateProperties e.row) : TableM Workspace Properties) w =
      (.ok ps, w) := by rw [run_checked, hps]
  have hresolve : t.resolve storeAt e.plan.targets (t.updateLength e.plan) w = (.ok [id], w) := by
    unfold Table.resolve
    rw [show e.plan.targets.records = some [id] from he]
    rfl
  unfold Table.update
  rw [run_bind_ok hchecked, run_bind_ok hresolve]
  simp only
  split
  · rw [List.mapM_cons, run_bind, run_bind]
    rcases t.change storeAt ps id w with ⟨_ | d, w'⟩ <;> rfl
  · rw [run_bind]
    rcases t.change storeAt ps id w with ⟨_ | d, w'⟩ <;> rfl

/-- The record, in the data source of the table, as the store of the table has it. -/
abbrev Finds (w : Workspace) (t : Table) (id : String) (c : Collection) (r : Record) : Prop :=
  (w.memory t.store).Finds id t.collection.source c r

namespace Finds

/-- An update that succeeds changes the record and finds it there again. -/
theorem update_ok (h : w.Finds t id c r) (he : e.Of id) {out : Updated}
    (hrun : t.update storeAt e.row e.plan w = (.ok out, w')) :
    ∃ ps, t.columns.updateProperties e.row = .ok ps ∧
      let n := (w.memory t.store).writes + 1
      let r' := Memory.changed c.properties n (.properties ps) r
      (∃ d, t.columns.decode r' = .ok d) ∧ w'.Finds t id c r' ∧ (w'.memory t.store).writes = n := by
  obtain ⟨ps, w₀, hchecked, -⟩ := run_bind_eq_ok hrun
  obtain ⟨hps, -⟩ := Prod.mk.inj hchecked
  refine ⟨ps, hps, ?_⟩
  rw [run_update_of he hps, run_change] at hrun
  rcases hcall : Memory.store.changeRecord id (.properties ps) (w.memory t.store) with ⟨_ | r', m⟩
  · rw [hcall] at hrun
    exact nomatch (Prod.mk.inj hrun).1
  · rw [hcall] at hrun
    obtain ⟨m', hcall', hfinds, hwrites, -⟩ :=
      h.changeRecord (Memory.changeable_of_accepted hcall).1 (.properties ps)
    obtain ⟨hr, rfl⟩ := Prod.mk.inj (hcall.symm.trans hcall')
    obtain rfl := Except.ok.inj hr
    simp only at hrun
    cases hd : t.columns.decode
        (Memory.changed c.properties ((w.memory t.store).writes + 1) (.properties ps) r) with
    | error cause =>
      rw [hd] at hrun
      exact nomatch (Prod.mk.inj hrun).1
    | ok d =>
      rw [hd] at hrun
      obtain ⟨-, rfl⟩ := Prod.mk.inj hrun
      unfold Workspace.Finds
      rw [memory_setMemory]
      exact ⟨⟨d, hd⟩, hfinds, hwrites⟩

/-- An update that is accepted succeeds when the store works and the record is decoded. -/
theorem run_update (h : w.Finds t id c r) (he : e.Of id)
    (hps : t.columns.updateProperties e.row = .ok ps)
    (hworks : (w.memory t.store).failure? .changeRecord = none) (hs : c.properties.Sorted)
    (hdeclared : t.columns.Declared c.properties) (hdecodes : ∃ d, t.columns.decode r = .ok d) :
    ∃ out w' r', t.update storeAt e.row e.plan w = (.ok out, w') ∧ w'.Finds t id c r' ∧
      (w'.memory t.store).failure? .changeRecord = none ∧ ∃ d, t.columns.decode r' = .ok d := by
  obtain ⟨m', hcall, hfinds, -, hfailures⟩ := h.changeRecord hworks (.properties ps)
  have hedited := edited_changed c.properties (Columns.sorted_updateProperties hps)
    ((w.memory t.store).writes + 1) r
  obtain ⟨d, hd⟩ := Columns.decode_edited hs hdeclared (Columns.lowered_updateProperties hps)
    hedited hdecodes
  rw [run_update_of he hps, run_change, hcall]
  simp only [hd]
  refine ⟨_, _, _, rfl, ?_, ?_, d, hd⟩
  · unfold Workspace.Finds
    rwa [memory_setMemory]
  · rwa [memory_setMemory, Memory.failure?, hfailures]

/-- Updates that all succeed amend the record by what each of them sends. -/
theorem updates_ok (h : w.Finds t id c r) (hes : ∀ e ∈ es, e.Of id) {outs : List Updated}
    (hrun : t.updates es w = (.ok outs, w')) :
    ∃ changes r', t.columns.Sends es changes ∧
      Amended c.properties changes (Stamp.time ((w.memory t.store).writes + es.length)) r r' ∧
      (es ≠ [] → ∃ d, t.columns.decode r' = .ok d) ∧ w'.Finds t id c r' := by
  induction es generalizing w r outs with
  | nil =>
    obtain ⟨-, rfl⟩ := Prod.mk.inj hrun
    exact ⟨[], r, .nil, .nil _ _ r, fun hne => absurd rfl hne, h⟩
  | cons e es ih =>
    obtain ⟨he, hes⟩ := List.forall_mem_cons.mp hes
    rw [Table.updates, List.mapM_cons] at hrun
    obtain ⟨out, w₁, hfirst, hrun⟩ := run_bind_eq_ok hrun
    obtain ⟨rest, w₂, hrest, hrun⟩ := run_bind_eq_ok hrun
    obtain ⟨-, rfl⟩ := Prod.mk.inj hrun
    obtain ⟨ps, hps, hdecodes, hfinds, hwrites⟩ := h.update_ok he hfirst
    obtain ⟨changes, r', hchanges, hamended, hdecodes', hfinds'⟩ := ih hfinds hes hrest
    have htime : (w₁.memory t.store).writes + es.length =
        (w.memory t.store).writes + (e :: es).length := by
      rw [hwrites, List.length_cons]
      omega
    rw [htime] at hamended
    have hsorted := Columns.sorted_updateProperties hps
    refine ⟨ps :: changes, r', .cons hps hchanges, hamended.cons hsorted _ ?_, fun _ => ?_,
      hfinds'⟩
    · intro hnil
      have hlength := hchanges.length_eq
      rw [hnil, List.length_nil] at hlength
      rw [List.length_cons, hlength]
    · by_cases hnil : es = []
      · subst hnil
        obtain rfl := List.forall₂_nil_left_iff.mp hchanges
        rwa [hamended.same rfl]
      · exact hdecodes' hnil

/-- Updates that are accepted one by one succeed in any order and number. -/
theorem run_updates (h : w.Finds t id c r) (hes : ∀ e ∈ es, e.Of id)
    (haccepted : ∀ e ∈ es, ∃ ps, t.columns.updateProperties e.row = .ok ps)
    (hworks : (w.memory t.store).failure? .changeRecord = none) (hs : c.properties.Sorted)
    (hdeclared : t.columns.Declared c.properties) (hdecodes : ∃ d, t.columns.decode r = .ok d) :
    ∃ outs w', t.updates es w = (.ok outs, w') := by
  induction es generalizing w r with
  | nil => exact ⟨[], w, rfl⟩
  | cons e es ih =>
    obtain ⟨he, hes⟩ := List.forall_mem_cons.mp hes
    obtain ⟨⟨ps, hps⟩, haccepted⟩ := List.forall_mem_cons.mp haccepted
    obtain ⟨out, w₁, r₁, hfirst, hfinds, hworks, hdecodes⟩ :=
      h.run_update he hps hworks hs hdeclared hdecodes
    obtain ⟨outs, w₂, hrest⟩ := ih hfinds hes haccepted hworks hdecodes
    refine ⟨out :: outs, w₂, ?_⟩
    unfold Table.updates at hrest ⊢
    rw [List.mapM_cons, run_bind_ok hfirst, run_bind_ok hrest]
    rfl

end Finds
end Workspace
end DocTables
