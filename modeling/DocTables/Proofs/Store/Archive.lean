import DocTables.Proofs.Store.Edited

/-!
The archive of a store. Moving records to or from it touches their flags and the stamps of their
edits, so a move back undoes it. A query sees only what is outside, and what a move to the archive
leaves outside can still be asked for.
-/
namespace DocTables.Memory
open Outcome
variable {m m₁ m' : Memory} {id source : String} {ids : List String} {flag : Bool} {r : Record}
  {change : Change}

section Places

/-- Where the records are: the data source of each, its id, and whether it is in the archive. -/
def places (m : Memory) : List (String × String × Bool) :=
  m.records.map fun s => (s.source, s.record.id, s.record.archived)

/-- The places after the records with these ids have been moved. -/
def moved (flag : Bool) (ids : List String) (places : List (String × String × Bool)) :
    List (String × String × Bool) :=
  places.map fun p => (p.1, p.2.1, if p.2.1 ∈ ids then flag else p.2.2)

theorem moved_nil (flag : Bool) (ps : List (String × String × Bool)) : moved flag [] ps = ps := by
  simp [moved]

theorem moved_cons (flag : Bool) (id : String) (ids : List String)
    (ps : List (String × String × Bool)) :
    moved flag (id :: ids) ps = moved flag ids (moved flag [id] ps) := by
  rw [moved, moved, moved, List.map_map]
  refine List.map_congr_left fun p _ => ?_
  by_cases hid : p.2.1 = id <;> by_cases hids : p.2.1 ∈ ids <;> simp [hid, hids]

/-- Records that are where they should go stay there. -/
theorem moved_eq_self {ps : List (String × String × Bool)}
    (h : ∀ p ∈ ps, p.2.1 ∈ ids → p.2.2 = flag) : moved flag ids ps = ps := by
  unfold moved
  conv_rhs => rw [← List.map_id ps]
  refine List.map_congr_left fun p hp => ?_
  by_cases hids : p.2.1 ∈ ids
  · simp [hids, ← h p hp hids]
  · simp [hids]

/-- Moving records back undoes a move. -/
theorem moved_moved (flag : Bool) {ps : List (String × String × Bool)}
    (h : ∀ p ∈ ps, p.2.1 ∈ ids → p.2.2 = flag) : moved flag ids (moved (!flag) ids ps) = ps := by
  have hlast : moved flag ids (moved (!flag) ids ps) = moved flag ids ps := by
    rw [moved, moved, moved, List.map_map]
    refine List.map_congr_left fun p _ => ?_
    by_cases hids : p.2.1 ∈ ids <;> simp [hids]
  rw [hlast, moved_eq_self h]

/-- A live record is outside the archive, wherever its id stands. -/
theorem Numbered.outside (h : m.Numbered) {r : Record} (hr : r ∈ m.live source)
    {p : String × String × Bool} (hp : p ∈ m.places) (hid : p.2.1 = r.id) : p.2.2 = false := by
  obtain ⟨s, hs, rfl⟩ := List.mem_map.mp hr
  obtain ⟨hs, hlive⟩ := List.mem_filter.mp hs
  obtain ⟨s', hs', rfl⟩ := List.mem_map.mp hp
  obtain rfl : s' = s := List.inj_on_of_nodup_map h.nodup hs' hs hid
  simpa using (Bool.and_eq_true_iff.mp hlive).2

end Places

section Changing

theorem works_of_perform {α : Type} (call : Call) (act : Memory → Except StoreError (α × Memory))
    {a : α} (h : perform call act m = (.ok a, m')) : m.failure? call.method = none := by
  unfold perform at h
  cases hfails : m.failure? call.method with
  | none => rfl
  | some message =>
    have hnoted : ({ m with calls := m.calls ++ [call] } : Memory).failure? call.method =
        some message := hfails
    simp only [hnoted] at h
    exact nomatch (Prod.mk.inj h).1

/-- A change of this record is accepted, whatever the change is. -/
def Changeable (m : Memory) (id : String) : Prop :=
  m.failure? .changeRecord = none ∧ ∃ s c, (m.records.find? fun s => s.record.id = id) = some s ∧
    m.collectionOf s.source = .ok c

theorem Changeable.accepted (h : m.Changeable id) (change : Change) :
    ∃ r, store.changeRecord id change m =
      (.ok r, (m.noted [.changeRecord id change]).withChanged r) := by
  obtain ⟨hworks, s, c, hs, hc⟩ := h
  have hdone := changeRecord_of_find (m := m.noted [.changeRecord id change]) hs hc change
  exact ⟨_, perform_eq_ok (.changeRecord id change) (Memory.changeRecord id change) hworks hdone⟩

theorem changeable_of_accepted (h : store.changeRecord id change m = (.ok r, m')) :
    m.Changeable id := by
  have hdone : Memory.changeRecord id change (m.noted [.changeRecord id change]) = .ok (r, m') :=
    of_perform _ (Memory.changeRecord id change) h
  refine ⟨works_of_perform _ (Memory.changeRecord id change) h, ?_⟩
  unfold Memory.changeRecord at hdone
  split at hdone
  next => exact nomatch hdone
  next s hs =>
    obtain ⟨c, hc, -⟩ := bind_eq_ok.mp hdone
    exact ⟨s, c, hs, hc⟩

/-- Whether a record can be changed does not depend on changes of records. -/
theorem changeable_withChanged (r : Record) :
    (m.withChanged r).Changeable id ↔ m.Changeable id := by
  have hfind : ((m.withChanged r).records.find? fun s => s.record.id = id) =
      (m.records.find? fun s => s.record.id = id).map fun s =>
        if s.record.id = r.id then { s with record := r } else s := find?_setRecord r m.records id
  have hsource : ∀ s : SourcedRecord,
      (if s.record.id = r.id then { s with record := r } else s).source = s.source := by
    intro s
    split <;> rfl
  unfold Changeable
  rw [hfind]
  refine and_congr_right fun _ => ⟨?_, ?_⟩
  · rintro ⟨s', c, hs', hc⟩
    obtain ⟨s, hs, rfl⟩ := Option.map_eq_some_iff.mp hs'
    exact ⟨s, c, hs, hsource s ▸ hc⟩
  · rintro ⟨s, c, hs, hc⟩
    exact ⟨_, c, by rw [hs]; rfl, (hsource s).symm ▸ hc⟩

theorem places_withChanged (m : Memory) (r : Record) :
    (m.withChanged r).places = moved r.archived [r.id] m.places := by
  unfold places moved withChanged setRecord
  rw [List.map_map, List.map_map]
  refine List.map_congr_left fun s _ => ?_
  by_cases hid : s.record.id = r.id <;> simp [hid]

/-- What is outside the archive after a record has been moved there. -/
theorem live_withChanged (harchived : r.archived = true) (source : String) :
    (m.withChanged r).live source = (m.live source).filter fun r' => r'.id ≠ r.id := by
  unfold live withChanged setRecord
  induction m.records with
  | nil => rfl
  | cons s records ih =>
    rw [List.map_cons]
    by_cases hid : s.record.id = r.id
    · cases hlive : decide (s.source = source) && !s.record.archived <;>
        simpa [hid, harchived, hlive, List.filter_cons] using ih
    · cases hlive : decide (s.source = source) && !s.record.archived <;>
        simpa [hid, hlive, List.filter_cons] using ih

/-- What moving the records with these ids leaves, but for notes and stamps. -/
structure Moved (flag : Bool) (ids : List String) (m m' : Memory) : Prop where
  collections : m'.collections = m.collections
  sources : m'.sources = m.sources
  failures : m'.failures = m.failures
  numbered : m'.Numbered
  places : m'.places = moved flag ids m.places
  live : flag = true → ∀ source,
    m'.live source = (m.live source).filter fun r => r.id ∉ ids
  changeable : ∀ id, m'.Changeable id ↔ m.Changeable id

/-- Notes are no moves. -/
theorem SameData.moved (h : SameData m m') (hm : m.Numbered) (flag : Bool) : Moved flag [] m m' := by
  refine ⟨h.collections, h.sources, h.failures, hm.congr h.records, ?_, fun _ source => ?_,
    fun id => ?_⟩
  · rw [moved_nil, places, places, h.records]
  · unfold Memory.live
    simp [h.records]
  · unfold Changeable failure? collectionOf
    rw [h.failures, h.records, h.sources, h.collections]

theorem Moved.of_noted {calls : List Call} (h : Moved flag ids (m.noted calls) m') :
    Moved flag ids m m' :=
  ⟨h.collections, h.sources, h.failures, h.numbered, h.places, h.live, h.changeable⟩

theorem Moved.cons (hcall : store.changeRecord id (.archived flag) m = (.ok r, m₁))
    (hrest : Moved flag ids m₁ m') : Moved flag (id :: ids) m m' := by
  obtain ⟨s, c, hs, rfl, hc, hr, rfl⟩ := changeRecord_store_eq_ok hcall
  have hid : r.id = s.record.id := hr ▸ id_changed ..
  have harchived : r.archived = flag := hr ▸ rfl
  refine ⟨hrest.collections, hrest.sources, hrest.failures, hrest.numbered, ?_,
    fun hflag source => ?_, fun other => ?_⟩
  · rw [hrest.places, places_withChanged, harchived, hid, moved_cons flag _ ids]
    rfl
  · rw [hrest.live hflag, live_withChanged (harchived.trans hflag), List.filter_filter, hid]
    refine (List.filter_congr fun r' _ => ?_ : _ = (m.live source).filter _)
    simp [not_or, Bool.and_comm]
  · exact (hrest.changeable other).trans (changeable_withChanged r)

theorem Moved.noted (h : Moved flag ids m m') (calls : List Call) :
    Moved flag ids m (m'.noted calls) :=
  ⟨h.collections, h.sources, h.failures, h.numbered, h.places, h.live, h.changeable⟩

theorem Accepted.moved (h : Accepted (.archived flag) m ids m') (hm : m.Numbered) :
    Moved flag ids m m' := by
  induction h with
  | nil => exact (SameData.refl _).moved hm flag
  | cons hcall _ ih => exact .cons hcall (ih (hm.changeRecord hcall))

theorem archived_of_changeRecord (hcall : store.changeRecord id (.archived flag) m = (.ok r, m')) :
    r.archived = flag := by
  obtain ⟨s, c, -, -, -, rfl, -⟩ := changeRecord_store_eq_ok hcall
  rfl

/-- A move leaves the flag of a record as it is or as it sets it. -/
theorem flagged_of_changeRecord {r : Record} {other : String}
    (hcall : store.changeRecord other (.archived flag) m = (.ok r, m'))
    (h : ∃ r, m.record? id = some r ∧ r.archived = flag) :
    ∃ r, m'.record? id = some r ∧ r.archived = flag := by
  have harchived := archived_of_changeRecord hcall
  obtain ⟨s, c, -, -, -, -, rfl⟩ := changeRecord_store_eq_ok hcall
  obtain ⟨r', hr', hflag⟩ := h
  have hrecord : (m.noted [.changeRecord other (.archived flag)]).record? id = some r' := hr'
  rw [record?_withChanged, hrecord]
  refine ⟨_, rfl, ?_⟩
  show (if r'.id = r.id then r else r').archived = flag
  split
  · exact harchived
  · exact hflag

/-- Records that a store has moved hold the flag, and so do those that held it before. -/
theorem Accepted.flagged (h : Accepted (.archived flag) m ids m')
    (hid : id ∈ ids ∨ ∃ r, m.record? id = some r ∧ r.archived = flag) :
    ∃ r, m'.record? id = some r ∧ r.archived = flag := by
  induction h with
  | nil => exact hid.resolve_left nofun
  | @cons m m₁ m' other ids r hcall _ ih =>
    refine ih ?_
    rcases hid with hid | hheld
    · rcases List.mem_cons.mp hid with rfl | hid
      · exact .inr ⟨r, record?_of_changeRecord hcall, archived_of_changeRecord hcall⟩
      · exact .inl hid
    · exact .inr (flagged_of_changeRecord hcall hheld)

theorem Accepted.changeable {change : Change} (h : Accepted change m ids m') :
    (∀ id ∈ ids, m.Changeable id) ∧ ∀ id, m'.Changeable id ↔ m.Changeable id := by
  induction h with
  | nil => exact ⟨nofun, fun _ => Iff.rfl⟩
  | cons hcall _ ih =>
    have hfirst := changeable_of_accepted hcall
    obtain ⟨s, c, -, -, -, -, rfl⟩ := changeRecord_store_eq_ok hcall
    obtain ⟨hids, hall⟩ := ih
    refine ⟨List.forall_mem_cons.mpr ⟨hfirst, fun id hid => ?_⟩, fun id => ?_⟩
    · exact (changeable_withChanged _).mp (hids id hid)
    · exact (hall id).trans (changeable_withChanged _)

/-- One by one, a store accepts changes of records until it refuses one. -/
theorem accepted_or_refused (change : Change) (m : Memory) (ids : List String) :
    (∃ m', Accepted change m ids m') ∨
    ∃ before id after m₁ e m₂, ids = before ++ id :: after ∧ Accepted change m before m₁ ∧
      store.changeRecord id change m₁ = (.error e, m₂) := by
  induction ids generalizing m with
  | nil => exact .inl ⟨m, .nil⟩
  | cons id ids ih =>
    rcases hcall : store.changeRecord id change m with ⟨e | r, m₁⟩
    · exact .inr ⟨[], id, ids, m, e, m₁, rfl, .nil, hcall⟩
    · rcases ih m₁ with ⟨m', h⟩ | ⟨before, id', after, m₂, e, m₃, rfl, h, hrefused⟩
      · exact .inl ⟨m', .cons hcall h⟩
      · exact .inr ⟨id :: before, id', after, m₂, e, m₃, rfl, .cons hcall h, hrefused⟩

/-- A store accepts a change of records just if each of them can be changed. -/
theorem exists_accepted {change : Change} :
    (∃ m', Accepted change m ids m') ↔ ∀ id ∈ ids, m.Changeable id := by
  constructor
  · rintro ⟨m', h⟩
    exact h.changeable.1
  · intro hids
    rcases accepted_or_refused change m ids with
      h | ⟨before, id, after, m₁, e, m₂, rfl, h, hrefused⟩
    · exact h
    · have hid := (h.changeable.2 id).mpr (hids id (by simp))
      obtain ⟨r, haccepted⟩ := hid.accepted change
      exact nomatch (Prod.mk.inj (hrefused.symm.trans haccepted)).1

end Changing

section Finding
variable {filter sorts : Option Json} {records kept : List Record} {q : Query}

/-- A list sorted by anything has the items that it had. -/
theorem mem_found {r : Record} : r ∈ m.found source filter sorts ↔
    r ∈ m.live source ∧ (filter.all fun j => (Filter.ofJson j).accepts r.properties) = true := by
  have hkept : r ∈ ((m.live source).filter fun r =>
        filter.all fun j => (Filter.ofJson j).accepts r.properties) ↔
      r ∈ m.live source ∧ (filter.all fun j => (Filter.ofJson j).accepts r.properties) = true :=
    List.mem_filter
  rw [← hkept]
  cases sorts with
  | none => rfl
  | some j => exact (SortRule.sortBy_perm j _).mem_iff

theorem ok_of_filterAuxM {ε α : Type} {f : α → Except ε Bool} {xs acc ys : List α}
    (h : xs.filterAuxM f acc = .ok ys) : ∀ x ∈ xs, ∃ b, f x = .ok b := by
  induction xs generalizing acc with
  | nil => nofun
  | cons x xs ih =>
    rw [List.filterAuxM] at h
    obtain ⟨b, hb, h⟩ := bind_eq_ok.mp h
    exact List.forall_mem_cons.mpr ⟨⟨b, hb⟩, ih h⟩

/-- A filter that some records are tested with fails on none of them. -/
theorem matching_of_subset (h : matching filter records = .ok kept) {fewer : List Record}
    (hfewer : ∀ r ∈ fewer, r ∈ records) : matching filter fewer =
      .ok (fewer.filter fun r => filter.all fun j => (Filter.ofJson j).accepts r.properties) := by
  cases filter with
  | none => simp [matching]
  | some j =>
    obtain ⟨ys, hys, -⟩ := bind_eq_ok.mp (mapError_eq_ok.mp h)
    rw [matching, filterM_eq_ok fun r hr => ok_of_filterAuxM hys r (hfewer r hr)]
    rfl

/-- The store answers queries of a data source with this filter. -/
def Queryable (m : Memory) (source : String) (filter : Option Json) : Prop :=
  m.failure? .query = none ∧ ∃ c kept, m.collectionOf source = .ok c ∧
    matching filter (m.live source) = .ok kept

theorem queryable_of_query {page : RecordPage} (h : store.query source q m = (.ok page, m')) :
    m.Queryable source q.filter := by
  have hworks := works_of_perform (.query source q)
    (fun m => (list source q m).map fun page => (page, m)) h
  obtain ⟨_, hlist, -⟩ := map_eq_ok.mp
    (of_perform _ (fun m => (list source q m).map fun page => (page, m)) h)
  obtain ⟨_, hlisting, -⟩ := bind_eq_ok.mp hlist
  obtain ⟨c, hc, hlisting⟩ := bind_eq_ok.mp hlisting
  obtain ⟨kept, hkept, -⟩ := bind_eq_ok.mp hlisting
  exact ⟨hworks, c, kept, hc, hkept⟩

theorem Queryable.query (h : m.Queryable source q.filter) (hcursor : q.cursor = none) :
    store.query source q m = (.ok (page m.hidesMore (m.found source q.filter q.sorts) 0
      (max 1 (q.limit.getD usualLimit))), m.noted [.query source q]) := by
  obtain ⟨hworks, c, kept, hc, hkept⟩ := h
  have hmatching := matching_of_subset hkept fun _ hr => hr
  refine query_of_list ?_ hworks
  refine bind_eq_ok.mpr ⟨_, bind_eq_ok.mpr ⟨c, hc, bind_eq_ok.mpr ⟨_, hmatching, rfl⟩⟩, ?_⟩
  rw [hcursor]
  rfl

/-- What is left outside the archive can still be asked for. -/
theorem Moved.queryable (h : Moved true ids m m') (hqueryable : m.Queryable source filter) :
    m'.Queryable source filter := by
  obtain ⟨hworks, c, kept, hc, hkept⟩ := hqueryable
  refine ⟨?_, c, _, ?_, matching_of_subset hkept fun r hr => ?_⟩
  · unfold failure?
    rw [h.failures]
    exact hworks
  · unfold collectionOf
    rw [h.sources, h.collections]
    exact hc
  · rw [h.live rfl] at hr
    exact List.mem_of_mem_filter hr

/-- Nothing that has been moved to the archive is found again. -/
theorem Moved.found_eq_nil (h : Moved true ids m m')
    (hids : ∀ r ∈ m.found source filter sorts, r.id ∈ ids) : m'.found source filter sorts = [] := by
  refine List.eq_nil_iff_forall_not_mem.mpr fun r hr => ?_
  obtain ⟨hlive, haccepts⟩ := mem_found.mp hr
  rw [h.live rfl] at hlive
  obtain ⟨hlive, hkept⟩ := List.mem_filter.mp hlive
  exact absurd (hids r (mem_found.mpr ⟨hlive, haccepts⟩)) (by simpa using hkept)

end Finding
end DocTables.Memory
