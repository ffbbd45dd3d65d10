import DocTables.Proofs.Store.Archive
import DocTables.Proofs.Table.Updating

/-!
Moves to and from the archive. A move makes one call for each of its targets, in order, until the
store refuses one. Rows are not decoded for it.
-/
namespace DocTables.Workspace
open Outcome Effect
variable {t : Table} {flag : Bool} {id : String} {ids before : List String}
  {targets : Targets} {w w₁ w' : Workspace} {m m₁ m₂ : Memory}

theorem run_setFlag (t : Table) (flag : Bool) (id : String) (w : Workspace) :
    t.setFlag storeAt flag id w =
      match Memory.store.changeRecord id (.archived flag) (w.memory t.store) with
      | (.ok _, m) => (.ok (), w.setMemory t.store m)
      | (.error e, m) =>
        (.error (.storeFailed (.archive flag id t.title) e.message), w.setMemory t.store m) := by
  refine (run_asking_checked _ _ (Memory.store.changeRecord id (.archived flag))
    (fun _ => .ok ()) _).trans ?_
  rcases Memory.store.changeRecord id (.archived flag) (w.memory t.store) with ⟨_ | _, _⟩ <;> rfl

theorem run_moves_cons (t : Table) (flag : Bool) (id : String) (ids : List String)
    (w : Workspace) : (id :: ids).forM (t.setFlag storeAt flag) w =
      match Memory.store.changeRecord id (.archived flag) (w.memory t.store) with
      | (.ok _, m) => ids.forM (t.setFlag storeAt flag) (w.setMemory t.store m)
      | (.error e, m) =>
        (.error (.storeFailed (.archive flag id t.title) e.message), w.setMemory t.store m) := by
  change (t.setFlag storeAt flag id >>= fun _ => ids.forM (t.setFlag storeAt flag)) w = _
  rw [run_bind, run_setFlag]
  rcases Memory.store.changeRecord id (.archived flag) (w.memory t.store) with ⟨_ | _, _⟩ <;> rfl

/-- Moves that the store accepts one by one succeed together. -/
theorem run_moves_accepted (h : Memory.Accepted (.archived flag) (w.memory t.store) ids m) :
    ∃ w', ids.forM (t.setFlag storeAt flag) w = (.ok (), w') ∧ Becomes t.store m w w' := by
  generalize hstart : w.memory t.store = m₀ at h
  induction h generalizing w with
  | nil => exact ⟨w, rfl, hstart ▸ .refl t.store w⟩
  | @cons m₀ m₁ m' id ids r hcall _ ih =>
    obtain ⟨w', hrun, hbecomes⟩ := ih (memory_setMemory w t.store m₁)
    refine ⟨w', ?_, (Becomes.setMemory (.refl t.store w) m₁).trans hbecomes⟩
    rw [run_moves_cons, hstart, hcall]
    exact hrun

/-- A move that the store refuses is the last one. -/
theorem run_moves_refused (after : List String) {e : StoreError}
    (h : Memory.Accepted (.archived flag) (w.memory t.store) before m)
    (hrefused : Memory.store.changeRecord id (.archived flag) m = (.error e, m₁)) :
    ∃ w', (before ++ id :: after).forM (t.setFlag storeAt flag) w =
        (.error (.storeFailed (.archive flag id t.title) e.message), w') ∧
      Becomes t.store m₁ w w' := by
  generalize hstart : w.memory t.store = m₀ at h
  induction h generalizing w with
  | nil =>
    refine ⟨w.setMemory t.store m₁, ?_, Becomes.setMemory (.refl t.store w) m₁⟩
    rw [List.nil_append, run_moves_cons, hstart, hrefused]
  | @cons m₀ m₂ m' other ids r hcall _ ih =>
    obtain ⟨w', hrun, hbecomes⟩ := ih hrefused (memory_setMemory w t.store m₂)
    refine ⟨w', ?_, (Becomes.setMemory (.refl t.store w) m₂).trans hbecomes⟩
    rw [List.cons_append, run_moves_cons, hstart, hcall]
    exact hrun

/-- A move is the calls for its targets, in whatever outcome these have. -/
theorem run_moveAll {r : Except TableError Unit}
    (hids : t.resolve storeAt targets t.limits.archiveBatch w = (.ok ids, w₁))
    (hmoves : ids.forM (t.setFlag storeAt flag) w₁ = (r, w')) :
    t.moveAll storeAt flag targets w = (r.map fun _ => ids.length, w') := by
  rw [Table.moveAll, run_bind_ok hids, run_bind, hmoves]
  cases r <;> rfl

/-- Moves that succeed together have been accepted one by one. -/
theorem accepted_of_run (h : ids.forM (t.setFlag storeAt flag) w = (.ok (), w')) :
    ∃ m, Memory.Accepted (.archived flag) (w.memory t.store) ids m ∧ Becomes t.store m w w' := by
  rcases Memory.accepted_or_refused (.archived flag) (w.memory t.store) ids with
    ⟨m, haccepted⟩ | ⟨before, id, after, m₁, e, m₂, rfl, haccepted, hrefused⟩
  · obtain ⟨w₂, hrun, hbecomes⟩ := run_moves_accepted haccepted
    obtain rfl : w₂ = w' := (Prod.mk.inj (hrun.symm.trans h)).2
    exact ⟨m, haccepted, hbecomes⟩
  · obtain ⟨w₂, hrun, -⟩ := run_moves_refused after haccepted hrefused
    exact nomatch (Prod.mk.inj (hrun.symm.trans h)).1

theorem moveAll_ok {n : Nat} (h : t.moveAll storeAt flag targets w = (.ok n, w')) :
    ∃ ids w₁, t.resolve storeAt targets t.limits.archiveBatch w = (.ok ids, w₁) ∧
      n = ids.length ∧ ids.forM (t.setFlag storeAt flag) w₁ = (.ok (), w') := by
  rw [Table.moveAll] at h
  obtain ⟨ids, w₁, hids, h⟩ := run_bind_eq_ok h
  obtain ⟨u, w₂, hmoves, h⟩ := run_bind_eq_ok h
  obtain ⟨hn, rfl⟩ := Prod.mk.inj h
  exact ⟨ids, w₁, hids, (Except.ok.inj hn).symm, hmoves⟩

/-- Without ids and an order, the first rows outside the archive that the filter accepts are
found. -/
theorem Resolves.first {length : Nat} {calls : List Call}
    (h : Resolves w t targets length ids calls) (hnone : targets.records = none)
    (hsorts : targets.criteria.sortsJson = none) :
    ∃ filter, targets.criteria.filterJson = .ok filter ∧
      ids = ((((w.memory t.store).live t.collection.source).filter fun r =>
        filter.all fun j => (Filter.ofJson j).accepts r.properties).take
          (t.limits.pageLength (some length))).map Record.id := by
  cases h with
  | given hgiven => exact nomatch hnone.symm.trans hgiven
  | @found filter _ hfilter =>
    refine ⟨filter, hfilter, ?_⟩
    rw [hsorts]
    rfl

/-- A move to or from the archive counts its targets, sets their flags in their order, and changes
nothing besides but their times of last edit. Without ids and an order its targets are the first
rows outside the archive that the filter accepts. It ends with the first target that the store
refuses; what was moved before stays so. It succeeds just if every target can be changed. -/
theorem moveAll_settles (hreach : (w.memory t.store).Reachable) (flag : Bool) (targets : Targets) :
    (∀ n w', t.moveAll storeAt flag targets w = (.ok n, w') →
      ∃ ids calls m', Resolves w t targets t.limits.archiveBatch ids calls ∧ n = ids.length ∧
        Memory.Went (.archived flag) ids ((w.memory t.store).noted calls) m' ∧
        (∀ id ∈ ids, ∃ r, m'.record? id = some r ∧ r.archived = flag) ∧
        Becomes t.store m' w w' ∧
        (targets.records = none → targets.criteria.sortsJson = none →
          ∃ filter, targets.criteria.filterJson = .ok filter ∧
            ids = ((((w.memory t.store).live t.collection.source).filter fun r =>
              filter.all fun j => (Filter.ofJson j).accepts r.properties).take
                (t.limits.pageLength (some t.limits.archiveBatch))).map Record.id)) ∧
    (∀ ids w₁ before id after m₁ e m₂,
      t.resolve storeAt targets t.limits.archiveBatch w = (.ok ids, w₁) →
      ids = before ++ id :: after →
      Memory.Accepted (.archived flag) (w₁.memory t.store) before m₁ →
      Memory.store.changeRecord id (.archived flag) m₁ = (.error e, m₂) →
      ∃ calls w', Resolves w t targets t.limits.archiveBatch ids calls ∧
        t.moveAll storeAt flag targets w =
          (.error (.storeFailed (.archive flag id t.title) e.message), w') ∧
        Memory.Went (.archived flag) before ((w.memory t.store).noted calls) m₁ ∧
        (∀ id ∈ before, ∃ r, m₁.record? id = some r ∧ r.archived = flag) ∧
        m₂ = m₁.noted [.changeRecord id (.archived flag)] ∧ Becomes t.store m₂ w w') ∧
    ∀ ids w₁, t.resolve storeAt targets t.limits.archiveBatch w = (.ok ids, w₁) →
      ((∃ n w', t.moveAll storeAt flag targets w = (.ok n, w')) ↔
        ∀ id ∈ ids, (w.memory t.store).Changeable id) := by
  have hnumbered (calls : List Call) : ((w.memory t.store).noted calls).Numbered := hreach.numbered
  refine ⟨fun n w' hmove => ?_, ?_, fun ids w₁ hids => ?_⟩
  · obtain ⟨ids, w₁, hids, hn, hmoves⟩ := moveAll_ok hmove
    obtain ⟨calls, hresolves, hfirst⟩ := resolve_ok hids
    obtain ⟨m', haccepted, hbecomes⟩ := accepted_of_run hmoves
    rw [hfirst.store] at haccepted
    exact ⟨ids, calls, m', hresolves, hn, haccepted.went (hnumbered calls) trivial,
      fun id hid => haccepted.flagged (.inl hid), hfirst.trans hbecomes, hresolves.first⟩
  · intro ids w₁ before id after m₁ e m₂ hids htargets haccepted hrefused
    obtain ⟨calls, hresolves, hfirst⟩ := resolve_ok hids
    obtain ⟨w', hrun, hbecomes⟩ := run_moves_refused after haccepted hrefused
    rw [← htargets] at hrun
    rw [hfirst.store] at haccepted
    exact ⟨calls, w', hresolves, run_moveAll hids hrun, haccepted.went (hnumbered calls) trivial,
      fun id hid => haccepted.flagged (.inl hid), Memory.changeRecord_store_eq_error hrefused,
      hfirst.trans hbecomes⟩
  · obtain ⟨calls, -, hfirst⟩ := resolve_ok hids
    have hchangeable : (∀ id ∈ ids, (w.memory t.store).Changeable id) ↔
        ∃ m', Memory.Accepted (.archived flag) (w₁.memory t.store) ids m' := by
      rw [Memory.exists_accepted, hfirst.store]
      exact Iff.rfl
    rw [hchangeable]
    constructor
    · rintro ⟨n, w', hmove⟩
      obtain ⟨ids', w₂, hids', -, hmoves⟩ := moveAll_ok hmove
      obtain ⟨hsame, rfl⟩ := Prod.mk.inj (hids.symm.trans hids')
      obtain rfl := Except.ok.inj hsame
      obtain ⟨m', haccepted, -⟩ := accepted_of_run hmoves
      exact ⟨m', haccepted⟩
    · rintro ⟨m', haccepted⟩
      obtain ⟨w', hrun, -⟩ := run_moves_accepted haccepted
      exact ⟨_, w', run_moveAll hids hrun⟩

/-- The only score is moved to the archive. Of two targets the second is refused, and the first
stays moved. -/
theorem moveAll_settles_score :
    (∃ w', scoreTable.archive storeAt {} scoreWorkspace = (.ok 1, w') ∧
      (∃ r, (w'.memory "m").record? "rec-1" = some r ∧ r.archived = true) ∧
      (w'.memory "m").writes = 2) ∧
    ∃ cause w', scoreTable.archive storeAt { records := some ["rec-1", "rec-2"] } scoreWorkspace =
        (.error (.storeFailed (.archive true "rec-2" "Scores") cause), w') ∧
      (∃ r, (w'.memory "m").record? "rec-1" = some r ∧ r.archived = true) ∧
      (w'.memory "m").writes = 2 := by
  constructor
  · obtain ⟨w', harchive⟩ : ∃ w', scoreTable.archive storeAt {} scoreWorkspace = (.ok 1, w') :=
      ⟨_, rfl⟩
    obtain ⟨ids, calls, m', -, hn, hwent, hflagged, hbecomes, hfirst⟩ :=
      (moveAll_settles reachable_scoreMemory true {}).1 _ _ harchive
    obtain ⟨filter, hfilter, rfl⟩ := hfirst rfl rfl
    obtain rfl : none = filter := Except.ok.inj hfilter
    refine ⟨w', harchive, ?_⟩
    rw [show "m" = scoreTable.store from rfl, hbecomes.store]
    refine ⟨hflagged _ (List.mem_singleton_self _), ?_⟩
    rw [hwent.writes, ← hn]
    rfl
  · obtain ⟨m₁, e, m₂, haccepted, hrefused⟩ : ∃ m₁ e m₂,
        Memory.Accepted (.archived true) (scoreWorkspace.memory scoreTable.store) ["rec-1"] m₁ ∧
        Memory.store.changeRecord "rec-2" (.archived true) m₁ = (.error e, m₂) :=
      ⟨_, _, _, .cons rfl .nil, rfl⟩
    obtain ⟨calls, w', -, harchive, hwent, hflagged, rfl, hbecomes⟩ :=
      (moveAll_settles reachable_scoreMemory true { records := some ["rec-1", "rec-2"] }).2.1
        _ _ ["rec-1"] "rec-2" [] m₁ e m₂ rfl rfl haccepted hrefused
    refine ⟨_, w', harchive, ?_⟩
    rw [show "m" = scoreTable.store from rfl, hbecomes.store]
    exact ⟨hflagged _ (List.mem_singleton_self _), hwent.writes⟩

end DocTables.Workspace
