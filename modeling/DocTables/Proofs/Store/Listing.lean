import Mathlib.Data.List.Perm.Subperm
import DocTables.Proofs.Effect
import DocTables.Proofs.Predicate.Agreement
import DocTables.Proofs.StableSort
import DocTables.Proofs.Text

/-! What a store in memory lists: every record that is asked for, cut into pages by offsets. -/
namespace DocTables
open Outcome

/-- The filter holds of the properties, and does not fail on them. -/
def Filter.accepts (f : Filter) (properties : Properties) : Bool :=
  (f.holds properties).toOption.getD false

section Cutting
variable {α : Type} {xs : List α} {k size : Nat}

theorem length_cut (h : k + size < xs.length) : ((xs.drop k).take size).length = size := by
  rw [List.length_take, List.length_drop]
  omega

theorem cut_eq_drop (h : xs.length ≤ k + size) : (xs.drop k).take size = xs.drop k := by
  apply List.take_of_length_le
  rw [List.length_drop]
  omega

end Cutting

namespace SortRule

/-- The entries of a sort list; anything but an array has none. -/
def rules (sorts : Json) : List SortRule := sorts.items.map ofJson

theorem sortBy_eq (sorts : Json) (records : List Record) :
    sortBy sorts records =
      StableSort.sort (fun a b => compareBy (rules sorts) a b == .lt) records := by
  cases sorts
  case array items => rfl
  all_goals exact (StableSort.sort_eq_self fun _ _ _ _ => rfl).symm

/-- Sorting loses no record and repeats none. -/
theorem sortBy_perm (sorts : Json) (records : List Record) :
    (sortBy sorts records).Perm records := by
  rw [sortBy_eq]
  exact StableSort.sort_perm _ _

end SortRule

namespace Memory

/-- The records that a filter keeps, oldest first, in the order of a sort list. -/
def found (m : Memory) (source : String) (filter sorts : Option Json) : List Record :=
  let kept := (m.live source).filter fun r =>
    filter.all fun j => (Filter.ofJson j).accepts r.properties
  sorts.elim kept fun sorts => SortRule.sortBy sorts kept

theorem length_live_le (m : Memory) (source : String) :
    (m.live source).length ≤ m.records.length := by
  rw [live, List.length_map]
  exact List.length_filter_le _ _

/-- What is found is live, and nothing is found twice. -/
theorem found_subperm (m : Memory) (source : String) (filter sorts : Option Json) :
    (m.found source filter sorts).Subperm (m.live source) := by
  have hkept := (List.filter_sublist (l := m.live source)
    (p := fun r => filter.all fun j => (Filter.ofJson j).accepts r.properties)).subperm
  cases sorts with
  | none => exact hkept
  | some j => exact (SortRule.sortBy_perm j _).subperm.trans hkept

theorem length_found_le (m : Memory) (source : String) (filter sorts : Option Json) :
    (m.found source filter sorts).length ≤ m.records.length :=
  (m.found_subperm source filter sorts).length_le.trans (m.length_live_le source)

theorem filterAuxM_eq_ok {ε α : Type} {f : α → Except ε Bool} {xs : List α}
    (h : ∀ x ∈ xs, ∃ b, f x = .ok b) (acc : List α) :
    xs.filterAuxM f acc = .ok ((xs.filter fun x => (f x).toOption.getD false).reverse ++ acc) := by
  induction xs generalizing acc with
  | nil => rfl
  | cons x xs ih =>
    obtain ⟨⟨b, hb⟩, hxs⟩ := List.forall_mem_cons.mp h
    have hcons : (x :: xs).filterAuxM f acc = xs.filterAuxM f (cond b (x :: acc) acc) := by
      rw [List.filterAuxM, hb]
      rfl
    rw [hcons, ih hxs]
    cases b <;> simp [hb, Except.toOption]

/-- A filter that never fails keeps what satisfies it. -/
theorem filterM_eq_ok {ε α : Type} {f : α → Except ε Bool} {xs : List α}
    (h : ∀ x ∈ xs, ∃ b, f x = .ok b) :
    xs.filterM f = .ok (xs.filter fun x => (f x).toOption.getD false) := by
  rw [List.filterM, filterAuxM_eq_ok h]
  simp [bind, Except.bind, pure, Except.pure]

theorem toList_cursor (k : Nat) : (cursor k).toList = cursorMark ++ Nat.toDigits 10 k := by
  rw [cursor, String.toList_append, String.toList_ofList, Nat.toString_eq_repr, Nat.toList_repr]

/-- A cursor is read back when its offset has at most 64 bits. -/
theorem offset?_cursor {k : Nat} (hk : k < UInt64.size) : offset? (cursor k) = some k := by
  have hprefix : cursorMark.isPrefixOf (cursor k).toList = true := by
    rw [toList_cursor, List.isPrefixOf_iff_prefix]
    exact List.prefix_append _ _
  have hdigits : (cursor k).toList.drop cursorMark.length = Nat.toDigits 10 k := by
    rw [toList_cursor, List.drop_left]
  have hsign : (Nat.toDigits 10 k).head? ≠ some '+' := by
    intro h
    have hmem := List.mem_of_head? h
    have hdigit := Nat.isDigit_of_mem_toDigits (b := 10) (by decide) (by decide) hmem
    exact absurd hdigit (by decide)
  simp only [offset?, hprefix, hdigits, hsign, if_true, if_false, Text.decimal?_toDigits]
  simp [Option.filter, hk]

/-- Filters that every record can be tested with. -/
def Total (filter : Option Json) : Prop :=
  ∀ j ∈ filter, ∀ properties, ∃ b, (Filter.ofJson j).holds properties = .ok b

theorem total_none : Total none := by
  unfold Total
  simp

theorem matching_eq_ok {filter : Option Json} (h : Total filter) (records : List Record) :
    matching filter records = .ok (records.filter fun r =>
      filter.all fun j => (Filter.ofJson j).accepts r.properties) := by
  cases filter with
  | none => simp [matching]
  | some j =>
    rw [matching, filterM_eq_ok fun r _ => h j rfl r.properties]
    rfl

theorem filterAuxM_ok {ε α : Type} {f : α → Except ε Bool} {xs ys acc : List α}
    (h : xs.filterAuxM f acc = .ok ys) :
    ys = (xs.filter fun x => (f x).toOption.getD false).reverse ++ acc := by
  induction xs generalizing acc with
  | nil => exact (Except.ok.inj h).symm
  | cons x xs ih =>
    rw [List.filterAuxM] at h
    cases hx : f x with
    | error e =>
      rw [hx] at h
      exact nomatch h
    | ok b =>
      rw [hx] at h
      rw [ih h]
      cases b <;> simp [hx, Except.toOption]

/-- A filter that is tested on all records keeps what satisfies it. -/
theorem matching_ok {filter : Option Json} {records kept : List Record}
    (h : matching filter records = .ok kept) : kept = records.filter fun r =>
      filter.all fun j => (Filter.ofJson j).accepts r.properties := by
  cases filter with
  | none => simpa [matching, eq_comm] using h
  | some j =>
    obtain ⟨found, hfound, heq⟩ := bind_eq_ok.mp (mapError_eq_ok.mp h)
    obtain rfl := Except.ok.inj heq
    rw [filterAuxM_ok hfound, List.append_nil, List.reverse_reverse]
    rfl

theorem listing_eq_ok {m : Memory} {source : String} {c : Collection} {q : Query}
    (hsource : m.collectionOf source = .ok c) (hfilter : Total q.filter) :
    m.listing source q = .ok (m.found source q.filter q.sorts) := by
  rw [listing, hsource, matching_eq_ok hfilter]
  rfl

/-- Where a query starts: at the front, or where a cursor says. -/
def StartsAt (cursor : Option String) (k : Nat) : Prop :=
  cursor = none ∧ k = 0 ∨ cursor = some (Memory.cursor k) ∧ k < UInt64.size

theorem startOffset_eq_ok {cursor : Option String} {k : Nat} (h : StartsAt cursor k) :
    startOffset cursor = .ok k := by
  rcases h with ⟨rfl, rfl⟩ | ⟨rfl, hk⟩
  · rfl
  · simp [startOffset, offset?_cursor hk]

/-- A query answers with the page at its offset. -/
theorem list_eq_ok {m : Memory} {source : String} {c : Collection} {q : Query} {k : Nat}
    (hsource : m.collectionOf source = .ok c) (hfilter : Total q.filter)
    (hcursor : StartsAt q.cursor k) :
    Memory.list source q m =
      .ok (page m.hidesMore (m.found source q.filter q.sorts) k
        (max 1 (q.limit.getD usualLimit))) := by
  rw [list, listing_eq_ok hsource hfilter, startOffset_eq_ok hcursor]
  rfl

/-- The memory with further calls noted. -/
def noted (m : Memory) (calls : List Call) : Memory := { m with calls := m.calls ++ calls }

theorem noted_noted (m : Memory) (cs ds : List Call) :
    (m.noted cs).noted ds = m.noted (cs ++ ds) := by
  simp [noted]

/-- A call that was not told to fail acts once it is noted. -/
theorem perform_eq_ok {α : Type} {m m' : Memory} {a : α} (call : Call)
    (act : Memory → Except StoreError (α × Memory))
    (hworks : m.failure? call.method = none) (hact : act (m.noted [call]) = .ok (a, m')) :
    perform call act m = (.ok a, m') := by
  have hnoted : (m.noted [call]).failure? call.method = none := hworks
  unfold noted at hact hnoted
  simp only [perform, hnoted, hact]

theorem query_of_list {m : Memory} {source : String} {q : Query} {answer : RecordPage}
    (hlist : Memory.list source q (m.noted [.query source q]) = .ok answer)
    (hworks : m.failure? .query = none) :
    store.query source q m = (.ok answer, m.noted [.query source q]) :=
  perform_eq_ok (.query source q) (fun m => (list source q m).map fun page => (page, m)) hworks
    (map_eq_ok.mpr ⟨_, hlist, rfl⟩)

theorem query_eq_ok {m : Memory} {source : String} {c : Collection} {q : Query} {k : Nat}
    (hsource : m.collectionOf source = .ok c) (hworks : m.failure? .query = none)
    (hfilter : Total q.filter) (hcursor : StartsAt q.cursor k) :
    store.query source q m =
      (.ok (page m.hidesMore (m.found source q.filter q.sorts) k
        (max 1 (q.limit.getD usualLimit))), m.noted [.query source q]) :=
  query_of_list (list_eq_ok hsource hfilter hcursor) hworks

end Memory

namespace Workspace

/-- The workspace with further calls of one of its stores noted. -/
def noted (w : Workspace) (name : String) (calls : List Call) : Workspace :=
  w.setMemory name ((w.memory name).noted calls)

@[simp] theorem memory_noted (w : Workspace) (name : String) (calls : List Call) :
    (w.noted name calls).memory name = (w.memory name).noted calls := memory_setMemory _ _ _

theorem noted_noted (w : Workspace) (name : String) (cs ds : List Call) :
    (w.noted name cs).noted name ds = w.noted name (cs ++ ds) := by
  rw [noted, memory_noted, Memory.noted_noted, noted, setMemory_setMemory, noted]

theorem query_eq_ok {w : Workspace} {name source : String} {c : Collection} {q : Query} {k : Nat}
    (hsource : (w.memory name).collectionOf source = .ok c)
    (hworks : (w.memory name).failure? .query = none) (hfilter : Memory.Total q.filter)
    (hcursor : Memory.StartsAt q.cursor k) :
    (storeAt name).query source q w =
      (.ok (Memory.page (w.memory name).hidesMore
        ((w.memory name).found source q.filter q.sorts) k
        (max 1 (q.limit.getD Memory.usualLimit))), w.noted name [.query source q]) :=
  run_onStore (Memory.query_eq_ok hsource hworks hfilter hcursor)

end Workspace
end DocTables
