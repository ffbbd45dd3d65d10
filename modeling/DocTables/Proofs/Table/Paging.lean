import DocTables.Proofs.Store.Listing

/-!
Paging: rows that are listed page after page are the rows of the whole listing, each once and in
its order, with as many queries as there are pages.
-/
namespace DocTables
open Outcome Effect

/-- Criteria in terms of columns alone, and the filter they are compiled to. -/
structure Criteria.Typed (c : Criteria) (filter : Option Json) : Prop where
  noFilter : c.filter = none
  noSorts : c.sorts = none
  compiled : c.filterJson = .ok filter

theorem Criteria.Typed.total {c : Criteria} {filter : Option Json} (h : c.Typed filter) :
    Memory.Total filter := by
  intro j hj properties
  obtain rfl := Option.mem_def.mp hj
  have hcompiled := h.compiled
  unfold Criteria.filterJson at hcompiled
  rw [h.noFilter] at hcompiled
  cases hp : c.predicate with
  | none => simp [hp] at hcompiled
  | some p =>
    rw [hp] at hcompiled
    obtain ⟨j', hj', he⟩ := map_eq_ok.mp hcompiled
    obtain rfl := Option.some.inj he
    exact Predicate.filter_total hj' properties

/-- A table whose data source a memory has, with records in number and content that can be listed
and decoded. -/
structure Table.Readable (t : Table) (m : Memory) : Prop where
  source : ∃ c, m.collectionOf t.collection.source = .ok c
  works : m.failure? .query = none
  decodes : ∀ r ∈ m.live t.collection.source, ∃ d, t.columns.decode r = .ok d
  fits : m.records.length < UInt64.size

namespace Table

theorem Readable.noted {t : Table} {m : Memory} (h : t.Readable m) (calls : List Call) :
    t.Readable (m.noted calls) := ⟨h.source, h.works, h.decodes, h.fits⟩

theorem run_list {t : Table} {w w' : Workspace} {q : Query} {page : RecordPage}
    {rows : List DecodedRecord}
    (hquery : (Workspace.storeAt t.store).query t.collection.source q w = (.ok page, w'))
    (hrows : page.records.mapM t.columns.decode = .ok rows) :
    t.list Workspace.storeAt q w =
      (.ok ⟨rows, page.next, page.more.getD page.next.isSome⟩, w') := by
  rw [list, run_bind_ok (run_asking_ok hquery)]
  have hmap := run_mapM_checked t.columns.decode page.records w'
  rw [hrows] at hmap
  exact run_bind_ok hmap _

/-- The query of a page of a typed selection. -/
def pageQuery (t : Table) (s : Selection) (filter : Option Json) (cursor : Option String) : Query :=
  ⟨filter, s.criteria.sortsJson, some (t.limits.pageLength s.length), cursor⟩

/-- What a selection finds in a memory, pages aside. -/
def found (t : Table) (s : Selection) (filter : Option Json) (m : Memory) : List Record :=
  m.found t.collection.source filter s.criteria.sortsJson

/-- The page of at most `size` rows from row `k` on. -/
def rowPage (rows : List DecodedRecord) (k size : Nat) : RowPage :=
  let shown := (rows.drop k).take size
  let stop := k + shown.length
  let more := decide (stop < rows.length)
  ⟨shown, if more then some (Memory.cursor stop) else none, more⟩

/-- The rows of a page of records are the page of the rows. -/
theorem mapM_page {f : Record → Except TableError DecodedRecord} {records : List Record}
    {rows : List DecodedRecord} (h : records.mapM f = .ok rows) (k size : Nat) :
    ((records.drop k).take size).mapM f = .ok ((rows.drop k).take size) :=
  mapM_eq_ok.mpr (List.forall₂_take _ (List.forall₂_drop _ (mapM_eq_ok.mp h)))

theorem rowPage_of_page {hidesMore : Bool} {records : List Record} {rows : List DecodedRecord}
    {k size : Nat} (h : records.length = rows.length) :
    (⟨(rows.drop k).take size, (Memory.page hidesMore records k size).next,
      (Memory.page hidesMore records k size).more.getD
        (Memory.page hidesMore records k size).next.isSome⟩ : RowPage) = rowPage rows k size := by
  simp only [Memory.page, rowPage, List.length_take, List.length_drop, h]
  cases hidesMore with
  | true =>
    -- Without a word about more, the cursor tells.
    simp only [if_true, Option.getD_none]
    cases decide (k + min size (rows.length - k) < rows.length) <;> rfl
  | false => rfl

/-- One page, whether or not the store says that there are more. -/
theorem run_select {t : Table} {w : Workspace} {s : Selection} {filter : Option Json} {k : Nat}
    {rows : List DecodedRecord} (hreadable : t.Readable (w.memory t.store))
    (htyped : s.criteria.Typed filter) (hexpand : s.expand = .empty)
    (hstart : Memory.StartsAt s.cursor k)
    (hrows : (t.found s filter (w.memory t.store)).mapM t.columns.decode = .ok rows)
    (target? : String → Option Table) :
    t.select Workspace.storeAt target? s w =
      (.ok (rowPage rows k (t.limits.pageLength s.length)),
        w.noted t.store [.query t.collection.source (t.pageQuery s filter s.cursor)]) := by
  obtain ⟨c, hsource⟩ := hreadable.source
  have hquery : t.selectionQuery s = .ok (t.pageQuery s filter s.cursor) := by
    rw [selectionQuery, Criteria.query, htyped.compiled]
    rfl
  have hsize : max 1 ((t.pageQuery s filter s.cursor).limit.getD Memory.usualLimit) =
      t.limits.pageLength s.length := max_eq_right (le_max_left _ _)
  have hpage : (Workspace.storeAt t.store).query t.collection.source
      (t.pageQuery s filter s.cursor) w =
        (.ok (Memory.page (w.memory t.store).hidesMore (t.found s filter (w.memory t.store)) k
          (t.limits.pageLength s.length)),
        w.noted t.store [.query t.collection.source (t.pageQuery s filter s.cursor)]) := by
    rw [← hsize]
    exact Workspace.query_eq_ok hsource hreadable.works htyped.total hstart
  have hlength : (t.found s filter (w.memory t.store)).length = rows.length :=
    (mapM_eq_ok.mp hrows).length_eq
  have hlist := run_list hpage (mapM_page hrows k (t.limits.pageLength s.length))
  rw [rowPage_of_page hlength] at hlist
  rw [select, hquery, run_bind_ok (run_checked _ _), run_bind_ok hlist, hexpand]
  rfl

/-- How many pages `total` rows have from row `k` on; the first is there even if it is empty. -/
def pageCount (total k size : Nat) : Nat := max 1 ((total - k + size - 1) / size)

theorem pageCount_last {total k size : Nat} (hsize : 0 < size) (h : total ≤ k + size) :
    pageCount total k size = 1 := by
  have hlt : (total - k + size - 1) / size < 2 := by
    rw [Nat.div_lt_iff_lt_mul hsize]
    omega
  unfold pageCount
  omega

theorem pageCount_next {total k size : Nat} (hsize : 0 < size) (h : k + size < total) :
    pageCount total k size = pageCount total (k + size) size + 1 := by
  have hstep : total - k + size - 1 = total - (k + size) + size - 1 + size := by omega
  have hrest : 1 ≤ (total - (k + size) + size - 1) / size := by
    rw [Nat.le_div_iff_mul_le hsize]
    omega
  unfold pageCount
  rw [hstep, Nat.add_div_right _ hsize]
  omega

/-- The queries of `n` pages, the first from where the selection starts at row `k`. -/
def pageCalls (t : Table) (s : Selection) (filter : Option Json) (k n : Nat) : List Call :=
  (List.range n).map fun i => .query t.collection.source (t.pageQuery s filter
    (if i = 0 then s.cursor else some (Memory.cursor (k + i * t.limits.pageLength s.length))))

theorem pageCalls_succ (t : Table) (s : Selection) (filter : Option Json) (k n : Nat) :
    t.pageCalls s filter k (n + 1) =
      .query t.collection.source (t.pageQuery s filter s.cursor) ::
        t.pageCalls { s with cursor := some (Memory.cursor (k + t.limits.pageLength s.length)) }
          filter (k + t.limits.pageLength s.length) n := by
  unfold pageCalls
  rw [List.range_succ_eq_map, List.map_cons, List.map_map]
  refine congrArg₂ List.cons rfl (List.map_congr_left fun i _ => ?_)
  simp only [Function.comp_apply, Nat.succ_ne_zero, if_false, pageQuery]
  split
  next hi => simp [hi]
  next => rw [Nat.succ_mul, Nat.add_assoc, Nat.add_comm (i * _)]

theorem rowPage_more {rows : List DecodedRecord} {k size : Nat} (h : k + size < rows.length) :
    rowPage rows k size = ⟨(rows.drop k).take size, some (Memory.cursor (k + size)), true⟩ := by
  simp [rowPage, length_cut h, h]

theorem rowPage_last {rows : List DecodedRecord} {k size : Nat} (h : rows.length ≤ k + size) :
    rowPage rows k size = ⟨rows.drop k, none, false⟩ := by
  have hstop : ¬ k + (rows.drop k).length < rows.length := by
    rw [List.length_drop]
    omega
  simp only [rowPage, cut_eq_drop h, hstop, decide_false]
  rfl

/-- Page after page, the rows from row `k` on. -/
theorem run_selectPages {t : Table} {w : Workspace} {s : Selection} {filter : Option Json}
    {k n : Nat} {rows : List DecodedRecord} (hreadable : t.Readable (w.memory t.store))
    (htyped : s.criteria.Typed filter) (hexpand : s.expand = .empty)
    (hstart : Memory.StartsAt s.cursor k)
    (hrows : (t.found s filter (w.memory t.store)).mapM t.columns.decode = .ok rows)
    (hn : pageCount rows.length k (t.limits.pageLength s.length) ≤ n)
    (target? : String → Option Table) :
    t.selectPages Workspace.storeAt target? n s w =
      (.ok (rows.drop k, none), w.noted t.store
        (t.pageCalls s filter k (pageCount rows.length k (t.limits.pageLength s.length)))) := by
  induction n generalizing k w s with
  | zero =>
    have hpos : 1 ≤ pageCount rows.length k (t.limits.pageLength s.length) := le_max_left _ _
    omega
  | succ n ih =>
    have hsize : 0 < t.limits.pageLength s.length := lt_of_lt_of_le Nat.one_pos (le_max_left _ _)
    have hselect := run_select hreadable htyped hexpand hstart hrows target?
    rw [selectPages, run_bind_ok hselect]
    rcases lt_or_ge (k + t.limits.pageLength s.length) rows.length with hmore | hlast
    · have hcount := pageCount_next hsize hmore
      have hfits : rows.length < UInt64.size := by
        rw [← (mapM_eq_ok.mp hrows).length_eq]
        exact lt_of_le_of_lt (Memory.length_found_le _ _ _ _) hreadable.fits
      -- The memory after the query differs in its notes alone, and the cursor leads on.
      have hrest := ih
        (w := w.noted t.store [.query t.collection.source (t.pageQuery s filter s.cursor)])
        (s := { s with cursor := some (Memory.cursor (k + t.limits.pageLength s.length)) })
        (k := k + t.limits.pageLength s.length)
        (by rw [Workspace.memory_noted]; exact hreadable.noted _) htyped hexpand
        (.inr ⟨rfl, hmore.trans hfits⟩) (by rw [Workspace.memory_noted]; exact hrows)
        (by simp only; omega)
      rw [Workspace.noted_noted] at hrest
      simp only [rowPage_more hmore, if_true]
      rw [run_bind_ok hrest, run_pure, hcount, pageCalls_succ, ← List.drop_drop,
        List.take_append_drop]
      rfl
    · rw [pageCount_last hsize hlast]
      simp only [rowPage_last hlast]
      rfl

theorem Readable.rows {t : Table} {m : Memory} (h : t.Readable m) (s : Selection)
    (filter : Option Json) :
    ∃ rows, (t.found s filter m).mapM t.columns.decode = .ok rows :=
  mapM_total fun r hr => h.decodes r ((m.found_subperm _ _ _).subset hr)

/-- There are never more pages than records and one. -/
theorem pageCount_le (total k size : Nat) : pageCount total k size ≤ total + 1 := by
  have hdiv : (total - k + size - 1) / size ≤ total - k + 1 := by
    rcases Nat.eq_zero_or_pos size with rfl | hsize
    · simp
    · rw [Nat.div_le_iff_le_mul_add_pred hsize]
      have := Nat.le_mul_of_pos_left (total - k + 1) hsize
      omega
  unfold pageCount
  omega

end Table

namespace Workspace

theorem run_selectRest {t : Table} {w : Workspace} {s : Selection} {filter : Option Json} {k : Nat}
    {rows : List DecodedRecord} (hreadable : t.Readable (w.memory t.store))
    (htyped : s.criteria.Typed filter) (hexpand : s.expand = .empty)
    (hstart : Memory.StartsAt s.cursor k)
    (hrows : (t.found s filter (w.memory t.store)).mapM t.columns.decode = .ok rows) :
    selectRest t s w =
      (.ok (rows.drop k), w.noted t.store (t.pageCalls s filter k
        (Table.pageCount rows.length k (t.limits.pageLength s.length)))) := by
  have hfuel : Table.pageCount rows.length k (t.limits.pageLength s.length) ≤
      (w.memory t.store).records.length + 1 := by
    refine (Table.pageCount_le _ _ _).trans (Nat.succ_le_succ ?_)
    rw [← (mapM_eq_ok.mp hrows).length_eq]
    exact Memory.length_found_le _ _ _ _
  have hpages := Table.run_selectPages hreadable htyped hexpand hstart hrows hfuel (w.target? t)
  rw [selectRest, run_bind_ok (run_get w), run_bind_ok hpages]
  rfl

theorem run_select {t : Table} {w : Workspace} {s : Selection} {filter : Option Json} {k : Nat}
    {rows : List DecodedRecord} (hreadable : t.Readable (w.memory t.store))
    (htyped : s.criteria.Typed filter) (hexpand : s.expand = .empty)
    (hstart : Memory.StartsAt s.cursor k)
    (hrows : (t.found s filter (w.memory t.store)).mapM t.columns.decode = .ok rows) :
    select t s w =
      (.ok (Table.rowPage rows k (t.limits.pageLength s.length)),
        w.noted t.store [.query t.collection.source (t.pageQuery s filter s.cursor)]) := by
  rw [select, run_bind_ok (run_get w)]
  exact Table.run_select hreadable htyped hexpand hstart hrows (w.target? t)

end Workspace
end DocTables
