import DocTables.Proofs.Store.Listing
import DocTables.Proofs.Store.Records

/-!
The calls of a store in memory: each of them, done or refused, leaves a sound memory in which data
sources and declared types are where they were.
-/
namespace DocTables.Memory
open Outcome
variable {α : Type} {watched : String → Prop} {m : Memory} {call : Call}
  {act : Memory → Except StoreError (α × Memory)}

theorem Continues.noted (h : m.Sound watched) (calls : List Call) :
    Continues watched m (m.noted calls) := h.notes _ _ _

/-- A call is done, or changes nothing but the notes. -/
theorem state_perform (call : Call) (act : Memory → Except StoreError (α × Memory)) (m : Memory) :
    (∃ a m', act (m.noted [call]) = .ok (a, m') ∧ perform call act m = (.ok a, m')) ∨
      ∃ e, perform call act m = (.error e, m.noted [call]) := by
  unfold perform
  simp only
  split
  next message _ => exact .inr ⟨.injected message, rfl⟩
  next =>
    split
    next a m' h => exact .inl ⟨a, m', h, rfl⟩
    next e _ => exact .inr ⟨e, rfl⟩

theorem of_perform (call : Call) (act : Memory → Except StoreError (α × Memory)) {a : α}
    {m' : Memory} (h : perform call act m = (.ok a, m')) : act (m.noted [call]) = .ok (a, m') := by
  rcases state_perform call act m with ⟨a', m₁, hdone, heq⟩ | ⟨e, heq⟩
  · obtain ⟨ha, rfl⟩ := Prod.mk.inj (heq.symm.trans h)
    rw [hdone, Except.ok.inj ha]
  · exact nomatch (Prod.mk.inj (heq.symm.trans h)).1

theorem perform_refused {e : StoreError} (h : (perform call act m).1 = .error e) :
    (perform call act m).2 = m.noted [call] := by
  rcases state_perform call act m with ⟨a, m', -, heq⟩ | ⟨e', heq⟩
  · rw [heq] at h
    exact nomatch h
  · rw [heq]

/-- What holds once a call is noted, and still when it is done, holds after it. -/
theorem holds_perform {P : Memory → Prop} (hnoted : P (m.noted [call]))
    (hact : ∀ a m', act (m.noted [call]) = .ok (a, m') → P m') : P (perform call act m).2 := by
  rcases state_perform call act m with ⟨a, m', hdone, heq⟩ | ⟨e, heq⟩
  · rw [heq]
    exact hact a m' hdone
  · rw [heq]
    exact hnoted

/-- A call for a data source is done with its collection, or changes nothing but the notes. -/
theorem perform_cases_of_collection {source : String} (done : Collection → α × Memory)
    (hact : ∀ u, act (m.noted [call]) = .ok u → ∃ c, m.collectionOf source = .ok c ∧ u = done c) :
    (∃ c, m.collectionOf source = .ok c ∧ perform call act m = (.ok (done c).1, (done c).2)) ∨
      ∃ e, perform call act m = (.error e, m.noted [call]) := by
  rcases state_perform call act m with ⟨a, m', hdone, heq⟩ | hrefused
  · obtain ⟨c, hc, hu⟩ := hact (a, m') hdone
    refine .inl ⟨c, hc, ?_⟩
    rw [← hu]
    exact heq
  · exact .inr hrefused

/-- A record is added as the schema says at that moment, or nothing but the notes changes. -/
theorem addRecord_store_cases (m : Memory) (source : String) (ps : Properties) :
    (∃ c, m.collectionOf source = .ok c ∧ store.addRecord source ps m =
      (.ok (m.newRecord c source ps), (m.noted [.addRecord source ps]).withRecord
        ⟨source, m.newRecord c source ps⟩)) ∨
    ∃ e, store.addRecord source ps m = (.error e, m.noted [.addRecord source ps]) :=
  perform_cases_of_collection (fun c => (m.newRecord c source ps,
    (m.noted [.addRecord source ps]).withRecord ⟨source, m.newRecord c source ps⟩))
    fun _ => addRecord_eq_ok.mp

theorem extendSchema_store_cases (m : Memory) (source : String) (ps : Properties) :
    (∃ c, m.collectionOf source = .ok c ∧ store.extendSchema source ps m =
      (.ok (), (m.noted [.extendSchema source ps]).extended c ps)) ∨
    ∃ e, store.extendSchema source ps m = (.error e, m.noted [.extendSchema source ps]) :=
  perform_cases_of_collection (fun c => ((), (m.noted [.extendSchema source ps]).extended c ps))
    fun _ => extendSchema_eq_ok.mp

theorem Sound.perform (h : m.Sound watched)
    (hact : ∀ a m', act (m.noted [call]) = .ok (a, m') → Continues watched (m.noted [call]) m') :
    Continues watched m (perform call act m).2 := by
  have hnoted := Continues.noted h [call]
  exact holds_perform hnoted fun a m' hdone => hnoted.trans (hact a m' hdone)

theorem Sound.readSchema_store (h : m.Sound watched) (id : String) :
    Continues watched m (store.readSchema id m).2 := by
  refine h.perform fun c m' hc => ?_
  unfold findCollection at hc
  split at hc
  next =>
    obtain ⟨rfl, rfl⟩ := Prod.mk.inj (Except.ok.inj hc)
    exact .refl (Continues.noted h _).sound
  next => simp at hc

/-- A schema that is read is that of the collection's own data source. -/
theorem readSchema_eq_ok (h : m.Coherent) {id : String} {c : Collection} {m' : Memory}
    (hc : store.readSchema id m = (.ok c, m')) :
    m'.collectionOf c.source = .ok c ∧ m'.collectionOf c.source = m.collectionOf c.source := by
  have hdone : findCollection id (m.noted [.readSchema id]) = .ok (c, m') := of_perform _ _ hc
  unfold findCollection at hdone
  split at hdone
  next c' hget =>
    obtain ⟨rfl, rfl⟩ := Prod.mk.inj (Except.ok.inj hdone)
    exact ⟨collectionOf_eq_ok.mpr ⟨id, (h.source hget).2, hget⟩, rfl⟩
  next => simp at hdone

theorem of_addCollection {parent title : String} {properties : Properties} {ref : CollectionRef}
    {m' : Memory} (h : store.addCollection parent title properties m = (.ok ref, m')) :
    Memory.addCollection properties (m.noted [.addCollection parent title properties]) =
      (ref, m') :=
  Except.ok.inj (of_perform _ (fun m => .ok (Memory.addCollection properties m)) h)

/-- A new collection has a data source that was not there before, without records. -/
theorem addCollection_eq_ok (h : m.Coherent) {parent title : String} {properties : Properties}
    {ref : CollectionRef} {m' : Memory}
    (href : store.addCollection parent title properties m = (.ok ref, m')) :
    m.sources.get? ref.source = none ∧ m'.records = m.records ∧
      m'.collectionOf ref.source =
        .ok ⟨ref.collection, ref.source, properties.map Stamp.tagged⟩ := by
  obtain ⟨rfl, rfl⟩ := Prod.mk.inj (of_addCollection href)
  refine ⟨(h.fresh (m.created + 1) (Nat.lt_succ_self _)).1, rfl, collectionOf_eq_ok.mpr ?_⟩
  exact ⟨_, KeyMap.get?_insert_self _ _ _, KeyMap.get?_insert_self _ _ _⟩

theorem Sound.addCollection_store (h : m.Sound watched) (parent title : String)
    (properties : Properties) :
    Continues watched m (store.addCollection parent title properties m).2 := by
  refine h.perform fun ref m' href => ?_
  have heq := Except.ok.inj href
  have hm' : m' = (Memory.addCollection properties
      (m.noted [.addCollection parent title properties])).2 := by
    rw [heq]
  rw [hm']
  exact (Continues.noted h _).sound.addCollection properties

theorem Sound.extendSchema_store (h : m.Sound watched) {source : String} {properties : Properties}
    (hnew : watched source → m.Redeclares source properties) :
    Continues watched m (store.extendSchema source properties m).2 :=
  h.perform fun _ _ hdone => (Continues.noted h _).sound.extendSchema hdone hnew

/-- What a query from the front answers with. -/
theorem query_ok {m' : Memory} {source : String} {q : Query} {page : RecordPage}
    (hcursor : q.cursor = none)
    (h : store.query source q m = (.ok page, m')) :
    page.records = (m.found source q.filter q.sorts).take (max 1 (q.limit.getD usualLimit)) ∧
      m' = m.noted [.query source q] := by
  obtain ⟨page', hpage, heq⟩ := map_eq_ok.mp
    (of_perform _ (fun m => (list source q m).map fun page => (page, m)) h)
  obtain ⟨rfl, rfl⟩ := Prod.mk.inj heq
  obtain ⟨records, hrecords, hpage⟩ := bind_eq_ok.mp hpage
  obtain ⟨k, hk, hpage⟩ := bind_eq_ok.mp hpage
  rw [hcursor] at hk
  obtain rfl := Except.ok.inj hk
  obtain ⟨c, -, hlisting⟩ := bind_eq_ok.mp hrecords
  obtain ⟨kept, hkept, hsorted⟩ := bind_eq_ok.mp hlisting
  refine ⟨?_, rfl⟩
  rw [← Except.ok.inj hpage, ← Except.ok.inj hsorted, matching_ok hkept]
  rfl

theorem Sound.addRecord_store (h : m.Sound watched) {source : String} {properties : Properties}
    (hnew : watched source → m.Accepts source properties) :
    Continues watched m (store.addRecord source properties m).2 :=
  h.perform fun _ _ hdone => (Continues.noted h _).sound.addRecord hdone hnew

theorem addRecord_store_eq_ok {source : String} {c : Collection}
    (hc : m.collectionOf source = .ok c) (hworks : m.failure? .addRecord = none)
    (properties : Properties) :
    store.addRecord source properties m = (.ok (m.newRecord c source properties),
      (m.noted [.addRecord source properties]).withRecord
        ⟨source, m.newRecord c source properties⟩) :=
  perform_eq_ok (.addRecord source properties) (Memory.addRecord source properties) hworks
    (addRecord_eq_ok.mpr ⟨c, hc, rfl⟩)

/-- A record that is there is read. -/
theorem readRecord_store_eq_ok (h : m.Coherent) {id : String} {r : Record}
    (hr : m.record? id = some r) : (store.readRecord id m).1 = .ok r := by
  have hstart : store.startRead id m = (.ok (), (m.noted [.readRecord id]).beginRead.2) :=
    perform_eq_ok (.readRecord id) (fun m => .ok m.beginRead) (h.failure? _) rfl
  have hfinish : (store.finishRead id (m.noted [.readRecord id]).beginRead.2).1 = .ok r := by
    show (m.record? id).elim (Except.error (StoreError.recordNotFound id)) Except.ok = .ok r
    rw [hr]
    rfl
  rw [Store.readRecord, Effect.run_bind_ok hstart]
  exact hfinish

theorem Sound.startRead_store (h : m.Sound watched) (id : String) :
    Continues watched m (store.startRead id m).2 := by
  refine h.perform fun u m' hdone => ?_
  obtain ⟨-, rfl⟩ := Prod.mk.inj (Except.ok.inj hdone)
  exact (Continues.noted h _).sound.notes _ _ _

theorem Sound.finishRead_store (h : m.Sound watched) (id : String) :
    Continues watched m (store.finishRead id m).2 := h.notes _ _ _

theorem Sound.changeRecord_store (h : m.Sound watched) {id : String} {change : Change}
    (hchange : ∀ ps, change = .properties ps → ∀ s ∈ m.records, s.record.id = id →
      watched s.source → m.Accepts s.source ps) :
    Continues watched m (store.changeRecord id change m).2 :=
  h.perform fun _ _ hdone => (Continues.noted h _).sound.changeRecord hdone hchange

theorem Owns.changeRecord_store {source other : String} (h : m.Owns source other) (id : String)
    (change : Change) : (store.changeRecord id change m).2.Owns source other := by
  have hnoted : (m.noted [.changeRecord id change]).Owns source other := h
  exact holds_perform (P := fun m' => m'.Owns source other) hnoted
    fun _ _ hdone => hnoted.changeRecord hdone

theorem Sound.query_store (h : m.Sound watched) (source : String) (q : Query) :
    Continues watched m (store.query source q m).2 := by
  refine h.perform fun page m' hdone => ?_
  obtain ⟨_, -, heq⟩ := map_eq_ok.mp hdone
  obtain ⟨-, rfl⟩ := Prod.mk.inj heq
  exact .refl (Continues.noted h _).sound

theorem mem_of_filterAuxM {ε : Type} {f : α → Except ε Bool} {xs acc ys : List α}
    (h : xs.filterAuxM f acc = .ok ys) {y : α} (hy : y ∈ ys) : y ∈ xs ∨ y ∈ acc := by
  induction xs generalizing acc with
  | nil =>
    obtain rfl := Except.ok.inj h
    exact .inr hy
  | cons x xs ih =>
    rw [List.filterAuxM] at h
    obtain ⟨b, -, h⟩ := bind_eq_ok.mp h
    rcases ih h with hxs | hacc
    · exact .inl (List.mem_cons_of_mem _ hxs)
    · cases b with
      | false => exact .inr hacc
      | true =>
        rcases List.mem_cons.mp hacc with rfl | hacc
        · exact .inl List.mem_cons_self
        · exact .inr hacc

theorem mem_of_matching {filter : Option Json} {records kept : List Record}
    (h : matching filter records = .ok kept) {r : Record} (hr : r ∈ kept) : r ∈ records := by
  cases filter with
  | none =>
    obtain rfl := Except.ok.inj h
    exact hr
  | some j =>
    obtain ⟨ys, hys, heq⟩ := bind_eq_ok.mp (mapError_eq_ok.mp h)
    obtain rfl := Except.ok.inj heq
    rcases mem_of_filterAuxM hys (List.mem_reverse.mp hr) with hmem | hmem
    · exact hmem
    · simp at hmem

theorem mem_of_listing {source : String} {q : Query} {records : List Record}
    (h : m.listing source q = .ok records) {r : Record} (hr : r ∈ records) : r ∈ m.live source := by
  unfold listing at h
  obtain ⟨_, -, h⟩ := bind_eq_ok.mp h
  obtain ⟨kept, hkept, h⟩ := bind_eq_ok.mp h
  obtain rfl := Except.ok.inj h
  refine mem_of_matching hkept ?_
  cases hsorts : q.sorts with
  | none => simpa [hsorts] using hr
  | some j =>
    rw [hsorts] at hr
    exact (SortRule.sortBy_perm j kept).subset hr

theorem Coherent.owns (h : m.Coherent) {source : String} {r : Record} (hr : r ∈ m.live source) :
    m.Owns source r.id := by
  obtain ⟨s, hs, rfl⟩ := List.mem_map.mp hr
  obtain ⟨hmem, hlive⟩ := List.mem_filter.mp hs
  intro s' hs' hid
  obtain rfl : s' = s := List.inj_on_of_nodup_map h.ids_nodup hs' hmem hid
  simp only [Bool.and_eq_true, decide_eq_true_eq] at hlive
  exact hlive.1

/-- A query finds ids of records of the data source that was asked. -/
theorem Coherent.owns_of_query (h : m.Coherent) {source : String} {q : Query} {page : RecordPage}
    {m' : Memory} (hpage : store.query source q m = (.ok page, m')) {r : Record}
    (hr : r ∈ page.records) : m'.Owns source r.id := by
  have hdone : (list source q (m.noted [.query source q])).map
      (fun page => (page, m.noted [.query source q])) = .ok (page, m') :=
    of_perform _ (fun m => (list source q m).map fun page => (page, m)) hpage
  obtain ⟨_, hlist, heq⟩ := map_eq_ok.mp hdone
  obtain ⟨rfl, rfl⟩ := Prod.mk.inj heq
  unfold list at hlist
  obtain ⟨records, hrecords, hlist⟩ := bind_eq_ok.mp hlist
  obtain ⟨offset, -, hlist⟩ := bind_eq_ok.mp hlist
  obtain rfl := Except.ok.inj hlist
  have hlisting : m.listing source q = .ok records := hrecords
  exact h.owns (mem_of_listing hlisting (List.mem_of_mem_drop (List.mem_of_mem_take hr)))

end DocTables.Memory
