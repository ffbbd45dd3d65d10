import DocTables.Proofs.Table.Moving

/-!
Moves of rows to the archive and back. Rows are found among those outside the archive only, so a
move back that looks for its rows moves nothing. A move back of the rows by their ids undoes a move
to the archive.
-/
namespace DocTables.Workspace
open Outcome Effect
variable {t : Table} {flag : Bool} {id : String} {ids : List String} {targets : Targets}
  {w w₁ w' : Workspace}

/-- Records are moved in order until the store refuses one. -/
theorem run_moves (hm : (w.memory t.store).Numbered) {r : Except TableError Unit}
    (h : ids.forM (t.setFlag storeAt flag) w = (r, w')) :
    ∃ before, before <+: ids ∧
      Memory.Moved flag before (w.memory t.store) (w'.memory t.store) ∧
      (r = .ok () → before = ids ∧ ∀ id ∈ ids, (w.memory t.store).Changeable id) := by
  rcases Memory.accepted_or_refused (.archived flag) (w.memory t.store) ids with
    ⟨m, haccepted⟩ | ⟨before, id, after, m₁, e, m₂, rfl, haccepted, hrefused⟩
  · obtain ⟨w₂, hrun, hbecomes⟩ := run_moves_accepted haccepted
    obtain ⟨rfl, rfl⟩ := Prod.mk.inj (hrun.symm.trans h)
    rw [hbecomes.store]
    exact ⟨ids, List.prefix_refl ids, haccepted.moved hm, fun _ => ⟨rfl, haccepted.changeable.1⟩⟩
  · obtain ⟨w₂, hrun, hbecomes⟩ := run_moves_refused after haccepted hrefused
    obtain ⟨rfl, rfl⟩ := Prod.mk.inj (hrun.symm.trans h)
    rw [hbecomes.store, Memory.changeRecord_store_eq_error hrefused]
    exact ⟨before, List.prefix_append before _, (haccepted.moved hm).noted _, nofun⟩

/-- A move of records that are given by their ids and can be changed. -/
theorem moveAll_given (flag : Bool) (hm : (w.memory t.store).Numbered)
    (h : ∀ id ∈ ids, (w.memory t.store).Changeable id) :
    ∃ w', t.moveAll storeAt flag { records := some ids } w = (.ok ids.length, w') ∧
      (w'.memory t.store).places = Memory.moved flag ids (w.memory t.store).places := by
  obtain ⟨m, haccepted⟩ :
      ∃ m, Memory.Accepted (.archived flag) (w.memory t.store) ids m :=
    Memory.exists_accepted.mpr h
  obtain ⟨w', hmoves, hbecomes⟩ := run_moves_accepted haccepted
  refine ⟨w', run_moveAll rfl hmoves, ?_⟩
  rw [hbecomes.store]
  exact (haccepted.moved hm).places

/-- A move to or from the archive in any outcome. -/
theorem moveAll_outcome (hm : (w.memory t.store).Numbered) {r : Except TableError Nat}
    (h : t.moveAll storeAt flag targets w = (r, w')) :
    ∃ before, Memory.Moved flag before (w.memory t.store) (w'.memory t.store) ∧
      (before = [] ∨ ∃ ids w₁, t.resolve storeAt targets t.limits.archiveBatch w = (.ok ids, w₁) ∧
        before <+: ids) ∧
      ∀ n, r = .ok n → n = before.length ∧
        (∃ w₁, t.resolve storeAt targets t.limits.archiveBatch w = (.ok before, w₁)) ∧
        ∀ id ∈ before, (w.memory t.store).Changeable id := by
  rw [Table.moveAll, run_bind] at h
  rcases hresolve : t.resolve storeAt targets t.limits.archiveBatch w with ⟨e | ids, w₁⟩
  · rw [hresolve] at h
    obtain ⟨rfl, rfl⟩ := Prod.mk.inj h
    have hsame := (keptByReads_sameData w).resolve t targets t.limits.archiveBatch w (.refl w)
    rw [hresolve] at hsame
    exact ⟨[], (hsame.memory t.store).moved hm flag, .inl rfl, fun _ hn => absurd hn (by simp)⟩
  · rw [hresolve] at h
    obtain ⟨calls, -, hfirst⟩ := resolve_ok hresolve
    have hnumbered : (w₁.memory t.store).Numbered := by
      rw [hfirst.store]
      exact hm
    simp only [run_bind] at h
    rcases hmoves : ids.forM (t.setFlag storeAt flag) w₁ with ⟨r₁, w₂⟩
    obtain ⟨before, hbefore, hmoved, hall⟩ := run_moves hnumbered hmoves
    rw [hfirst.store] at hmoved hall
    rw [hmoves] at h
    cases r₁ with
    | error e =>
      obtain ⟨rfl, rfl⟩ := Prod.mk.inj h
      exact ⟨before, hmoved.of_noted, .inr ⟨ids, w₁, rfl, hbefore⟩,
        fun _ hn => absurd hn (by simp)⟩
    | ok u =>
      obtain ⟨rfl, rfl⟩ := Prod.mk.inj h
      obtain ⟨rfl, hchangeable⟩ := hall rfl
      refine ⟨before, hmoved.of_noted, .inr ⟨before, w₁, rfl, hbefore⟩, fun n hn => ?_⟩
      exact ⟨(Except.ok.inj hn).symm, ⟨w₁, rfl⟩, hchangeable⟩

section Finding
variable {filter : Option Json}

/-- The rows that a move looks for: the first that the criteria find outside the archive. -/
def foundIds (w : Workspace) (t : Table) (targets : Targets) (filter : Option Json) :
    List String :=
  (((w.memory t.store).found t.collection.source filter targets.criteria.sortsJson).take
    (t.limits.pageLength (some t.limits.archiveBatch))).map Record.id

theorem of_resolve (hnone : targets.records = none)
    (h : t.resolve storeAt targets t.limits.archiveBatch w = (.ok ids, w₁)) :
    ∃ filter, targets.criteria.filterJson = .ok filter ∧
      (w.memory t.store).Queryable t.collection.source filter ∧
      ids = foundIds w t targets filter := by
  obtain ⟨calls, hresolves, -⟩ := resolve_ok h
  cases hresolves with
  | given hgiven => exact nomatch hnone.symm.trans hgiven
  | @found filter _ hfilter =>
    refine ⟨filter, hfilter, ?_, rfl⟩
    rw [Table.resolve, hnone] at h
    obtain ⟨q, w₂, hchecked, hfind⟩ := run_bind_eq_ok h
    obtain ⟨hq, rfl⟩ := Prod.mk.inj hchecked
    obtain ⟨filter', hfilter', hq⟩ := bind_eq_ok.mp hq
    obtain rfl := Except.ok.inj (hfilter.symm.trans hfilter')
    obtain rfl := Except.ok.inj hq
    obtain ⟨page, w₃, hpage, -⟩ := run_bind_eq_ok hfind
    obtain ⟨m, hm, -⟩ := onStore_eq (asking_eq_ok hpage)
    exact Memory.queryable_of_query hm

theorem resolve_total (hnone : targets.records = none)
    (hfilter : targets.criteria.filterJson = .ok filter)
    (hqueryable : (w.memory t.store).Queryable t.collection.source filter) :
    ∃ w₁, t.resolve storeAt targets t.limits.archiveBatch w =
      (.ok (foundIds w t targets filter), w₁) := by
  have hquery : targets.criteria.query (t.limits.pageLength (some t.limits.archiveBatch)) none =
      .ok ⟨filter, targets.criteria.sortsJson,
        some (t.limits.pageLength (some t.limits.archiveBatch)), none⟩ := by
    rw [Criteria.query, hfilter]
    rfl
  have hlength : max 1 (t.limits.pageLength (some t.limits.archiveBatch)) =
      t.limits.pageLength (some t.limits.archiveBatch) := max_eq_right (le_max_left _ _)
  have hpage : (storeAt t.store).query t.collection.source ⟨filter, targets.criteria.sortsJson,
      some (t.limits.pageLength (some t.limits.archiveBatch)), none⟩ w =
        (.ok (Memory.page _ _ 0 (max 1 (t.limits.pageLength (some t.limits.archiveBatch)))), _) :=
    run_onStore (hqueryable.query rfl)
  rw [hlength] at hpage
  unfold Table.resolve
  rw [hnone]
  simp only
  rw [hquery, run_bind_ok (run_checked _ _), Table.find, run_bind_ok (run_asking_ok hpage)]
  exact ⟨_, rfl⟩

/-- The rows that are found are outside the archive. -/
theorem outside_of_mem_foundIds (hm : (w.memory t.store).Numbered)
    {p : String × String × Bool} (hp : p ∈ (w.memory t.store).places)
    (hid : p.2.1 ∈ foundIds w t targets filter) : p.2.2 = false := by
  obtain ⟨r, hr, heq⟩ := List.mem_map.mp hid
  exact hm.outside (Memory.mem_found.mp (List.mem_of_mem_take hr)).1 hp heq.symm

end Finding

/-- A move back that looks for its rows moves none and counts rows that were not in the archive.
After a move to the archive of all rows that are found it counts none. A move back of these rows by
their ids succeeds and undoes the move. -/
theorem restore_settles (hreach : (w.memory t.store).Reachable) (hnone : targets.records = none) :
    (∀ r w', t.restore storeAt targets w = (r, w') →
      (w'.memory t.store).places = (w.memory t.store).places ∧
      ∀ n, r = .ok n → ∃ filter, targets.criteria.filterJson = .ok filter ∧
        n = (foundIds w t targets filter).length) ∧
    ∀ n w₁, t.archive storeAt targets w = (.ok n, w₁) →
      ∃ filter, targets.criteria.filterJson = .ok filter ∧
        let ids := foundIds w t targets filter
        let found := (w.memory t.store).found t.collection.source filter targets.criteria.sortsJson
        n = ids.length ∧
        (w₁.memory t.store).places = Memory.moved true ids (w.memory t.store).places ∧
        (found.length < t.limits.pageLength (some t.limits.archiveBatch) →
          ∃ w₂, t.restore storeAt targets w₁ = (.ok 0, w₂)) ∧
        ∃ w₂, t.restore storeAt { records := some ids } w₁ = (.ok n, w₂) ∧
          (w₂.memory t.store).places = (w.memory t.store).places := by
  have hm := hreach.numbered
  refine ⟨fun r w' hrestore => ?_, fun n w₁ harchive => ?_⟩
  · obtain ⟨before, hmoved, hbefore, hcount⟩ := moveAll_outcome hm hrestore
    constructor
    · rw [hmoved.places]
      rcases hbefore with rfl | ⟨ids, w₁, hresolve, hpre⟩
      · exact Memory.moved_nil _ _
      · obtain ⟨filter, -, -, rfl⟩ := of_resolve hnone hresolve
        exact Memory.moved_eq_self fun p hp hid =>
          outside_of_mem_foundIds hm hp (hpre.subset hid)
    · intro n hn
      obtain ⟨rfl, ⟨w₁, hresolve⟩, -⟩ := hcount n hn
      obtain ⟨filter, hfilter, -, rfl⟩ := of_resolve hnone hresolve
      exact ⟨filter, hfilter, rfl⟩
  · obtain ⟨ids, hmoved, -, hcount⟩ := moveAll_outcome hm harchive
    obtain ⟨rfl, ⟨w₀, hresolve⟩, hchangeable⟩ := hcount n rfl
    obtain ⟨filter, hfilter, hqueryable, rfl⟩ := of_resolve hnone hresolve
    refine ⟨filter, hfilter, rfl, hmoved.places, fun hfew => ?_, ?_⟩
    · have hempty : foundIds w₁ t targets filter = [] := by
        have hfound : (w₁.memory t.store).found t.collection.source filter
            targets.criteria.sortsJson = [] := by
          refine hmoved.found_eq_nil fun r hr => List.mem_map_of_mem ?_
          rwa [List.take_of_length_le hfew.le]
        rw [foundIds, hfound, List.take_nil, List.map_nil]
      obtain ⟨w₂, hrun⟩ := resolve_total hnone hfilter (hmoved.queryable hqueryable)
      rw [hempty] at hrun
      refine ⟨w₂, ?_⟩
      rw [Table.restore, Table.moveAll, run_bind_ok hrun]
      rfl
    · obtain ⟨w₂, hback, hplaces⟩ := moveAll_given (t := t) (w := w₁) false hmoved.numbered
        fun id hid => (hmoved.changeable id).mpr (hchangeable id hid)
      refine ⟨w₂, hback, ?_⟩
      rw [hplaces, hmoved.places]
      exact Memory.moved_moved false fun p hp hid => outside_of_mem_foundIds hm hp hid

/-- The only score is moved to the archive, is not found there, and comes back by its id. -/
theorem restore_settles_score :
    ∃ w₁ w₂ w₃, scoreTable.archive storeAt {} scoreWorkspace = (.ok 1, w₁) ∧
      (w₁.memory "m").places = [("new-ds-1", "rec-1", true)] ∧
      scoreTable.restore storeAt {} w₁ = (.ok 0, w₂) ∧
      scoreTable.restore storeAt { records := some ["rec-1"] } w₁ = (.ok 1, w₃) ∧
      (w₃.memory "m").places = [("new-ds-1", "rec-1", false)] := by
  obtain ⟨w₁, harchive⟩ : ∃ w₁, scoreTable.archive storeAt {} scoreWorkspace = (.ok 1, w₁) :=
    ⟨_, rfl⟩
  obtain ⟨filter, hfilter, -, hplaces, hfound, w₃, hback, hrestored⟩ :=
    (@restore_settles scoreTable {} scoreWorkspace reachable_scoreMemory rfl).2 _ _ harchive
  obtain rfl : none = filter := Except.ok.inj hfilter
  obtain ⟨w₂, hnone⟩ := hfound (by decide)
  exact ⟨w₁, w₂, w₃, harchive, hplaces, hnone, hback, hrestored⟩

/-- A move back with the filter of a move to the archive does not undo it. -/
theorem not_forall_restore_undoes :
    ¬ ∀ (t : Table) (targets : Targets) (w w₁ : Workspace) (filter : Option Json) (n : Nat),
      (w.memory t.store).Reachable → targets.records = none →
      targets.criteria.filterJson = .ok filter → t.archive storeAt targets w = (.ok n, w₁) →
      ((w.memory t.store).found t.collection.source filter targets.criteria.sortsJson).length <
        t.limits.pageLength (some t.limits.archiveBatch) →
      ∃ w₂, t.restore storeAt targets w₁ = (.ok n, w₂) ∧
        (w₂.memory t.store).places = (w.memory t.store).places := by
  intro hall
  obtain ⟨w₁, w₂, harchive, hnone⟩ : ∃ w₁ w₂,
      scoreTable.archive storeAt {} scoreWorkspace = (.ok 1, w₁) ∧
        scoreTable.restore storeAt {} w₁ = (.ok 0, w₂) := ⟨_, _, rfl, rfl⟩
  obtain ⟨w₃, hundone, -⟩ :=
    hall scoreTable {} scoreWorkspace w₁ none 1 reachable_scoreMemory rfl rfl harchive (by decide)
  exact nomatch Except.ok.inj (Prod.mk.inj (hnone.symm.trans hundone)).1

end DocTables.Workspace
