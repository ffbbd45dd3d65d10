import DocTables.Proofs.Store.Events

/-!
The records of a data source over a whole run. Whatever happens in between, they are numbered in the
order in which they are added, and a list of them without filter and sorts, taken page by page,
shows those outside the archive in that order.
-/
namespace DocTables
open Outcome Effect

/-- The number that a record holds under a name. -/
def Record.number? (r : Record) (name : String) : Option Json :=
  (r.properties.get? name).bind fun p => (p.get? "unique_id").bind (·.get? "number")

namespace Memory
variable {m m' : Memory} {source id : String} {c : Collection} {ps : Properties}

section Adding

/-- The record that an event adds to a data source, with the schema at that moment. -/
def added? (source : String) (m : Memory) : Event → Option (Properties × Record)
  | .call (.addRecord other ps) =>
    if other = source then
      match m.collectionOf source, (store.addRecord source ps m).1 with
      | .ok c, .ok r => some (c.properties, r)
      | _, _ => none
    else none
  | _ => none

/-- The records that a run adds to a data source, oldest first, each with its schema. -/
def added (source : String) (m : Memory) (es : List Event) : List (Properties × Record) :=
  gathered (added? source) m es

theorem added_cons (source : String) (m : Memory) (e : Event) (es : List Event) :
    added source m (e :: es) = (added? source m e).toList ++ added source (e.act m) es := rfl

/-- The ids of the records of a data source, oldest first. -/
def ids (m : Memory) (source : String) : List String :=
  (m.records.filter fun s => s.source = source).map (·.record.id)

theorem length_ids (m : Memory) (source : String) :
    (m.ids source).length = m.records.countP fun s => s.source = source := by
  rw [ids, List.length_map, List.countP_eq_length_filter]

theorem added?_addRecord (hc : m.collectionOf source = .ok c)
    (hanswer : (store.addRecord source ps m).1 = .ok (m.newRecord c source ps)) (other : String) :
    added? other m (.call (.addRecord source ps)) =
      if source = other then some (c.properties, m.newRecord c source ps) else none := by
  by_cases h : source = other
  · subst h
    simp [added?, hc, hanswer]
  · simp [added?, h]

theorem added?_unwritten {e : Event}
    (hadd : ∀ source ps, e = .call (.addRecord source ps) →
      ∃ x, (store.addRecord source ps m).1 = .error x) : added? source m e = none := by
  unfold added?
  split
  next other ps =>
    split
    next h =>
      subst h
      obtain ⟨x, hx⟩ := hadd other ps rfl
      rw [hx]
      split <;> simp_all
    next => rfl
  next => rfl

theorem added?_eq_some {e : Event} {schema : Properties} {r : Record}
    (h : added? source m e = some (schema, r)) :
    ∃ ps c, e = .call (.addRecord source ps) ∧ m.collectionOf source = .ok c ∧
      schema = c.properties ∧ r = m.newRecord c source ps ∧ ⟨source, r⟩ ∈ (e.act m).records := by
  have hdone := done_act m e
  generalize e.act m = m' at hdone ⊢
  cases hdone with
  | @added other ps c hc hanswer =>
    rw [added?_addRecord hc hanswer] at h
    split at h
    next hother =>
      subst hother
      obtain ⟨rfl, rfl⟩ := Prod.mk.inj (Option.some.inj h)
      exact ⟨ps, c, rfl, hc, rfl, rfl, List.mem_append_right _ (List.mem_singleton_self _)⟩
    next => exact nomatch h
  | changed => exact nomatch h
  | unwritten _ _ hadd _ => exact nomatch (added?_unwritten hadd).symm.trans h

/-- A record that is replaced stays in its data source. -/
theorem filter_setRecord (r : Record) (records : List SourcedRecord) (source : String) :
    (setRecord r records).filter (fun s => s.source = source) =
      setRecord r (records.filter fun s => s.source = source) := by
  unfold setRecord
  rw [List.filter_map]
  congr 1
  refine List.filter_congr fun s _ => ?_
  simp only [Function.comp_apply]
  split <;> rfl

/-- An event appends the id of the record that it adds. -/
theorem Done.ids {e : Event} (h : Done m e m') (source : String) :
    m'.ids source = m.ids source ++ (added? source m e).toList.map (·.2.id) := by
  cases h with
  | @added other ps c hc hanswer =>
    rw [added?_addRecord hc hanswer]
    unfold Memory.ids withRecord
    simp only [noted, List.filter_append, List.map_append]
    by_cases hsource : other = source <;> simp [hsource]
  | @changed change s c hs hc hanswer =>
    unfold Memory.ids withChanged
    rw [filter_setRecord, map_id_setRecord]
    simp [added?, noted]
  | unwritten hrecords _ hadd _ =>
    rw [added?_unwritten hadd]
    unfold Memory.ids
    simp [hrecords]

theorem ids_after (m : Memory) (source : String) (es : List Event) :
    (m.after es).ids source = m.ids source ++ (added source m es).map (·.2.id) := by
  induction es generalizing m with
  | nil => exact (List.append_nil _).symm
  | cons e es ih =>
    rw [after_cons, ih, (done_act m e).ids source, added_cons, List.map_append, List.append_assoc]

/-- A new record gets the next number of its data source. -/
theorem number?_newRecord (hs : c.properties.Sorted) {name : String}
    (hname : Columns.declared? c.properties name = some PropertyType.uniqueId.key) :
    (m.newRecord c source ps).number? name = some (.int ((m.ids source).length + 1 : Nat)) := by
  obtain ⟨config, hconfig, htype⟩ := Option.bind_eq_some_iff.mp hname
  rw [Record.number?, get?_newRecord hs hconfig htype, length_ids]
  simp [Stamp.content?, Stamp.property, Json.ofFields, Json.get?, KeyMap.lookup,
    PropertyType.key]

/-- What is added as number `k` of a run comes after all that was there. -/
theorem InOrder.number?_added (h : m.InOrder) {es : List Event} (hes : ∀ e ∈ es, e.Ordered)
    {k : Nat} {schema : Properties} {r : Record} (hk : (added source m es)[k]? = some (schema, r))
    {name : String} (hname : Columns.declared? schema name = some PropertyType.uniqueId.key) :
    r.number? name = some (.int ((m.ids source).length + k + 1 : Nat)) := by
  induction es generalizing m k with
  | nil => exact nomatch hk
  | cons e es ih =>
    obtain ⟨he, hes⟩ := List.forall_mem_cons.mp hes
    have hids := congrArg List.length ((done_act m e).ids source)
    rw [List.length_append, List.length_map] at hids
    rw [added_cons] at hk
    cases hadded : added? source m e with
    | none =>
      rw [hadded] at hk hids
      have hlater := ih (h.act he) hes hk
      rwa [hids] at hlater
    | some first =>
      rw [hadded] at hk hids
      cases k with
      | zero =>
        obtain rfl := Option.some.inj hk
        obtain ⟨ps, c, -, hc, rfl, rfl, -⟩ := added?_eq_some hadded
        exact number?_newRecord (h.schemas.of_collectionOf hc) hname
      | succ k =>
        have hlater := ih (h.act he) hes hk
        have hnext : (m.ids source).length + 1 + k + 1 = (m.ids source).length + (k + 1) + 1 := by
          omega
        rw [hids, Option.toList_some, List.length_singleton, hnext] at hlater
        exact hlater

end Adding

section Listing

/-- Asks for page after page, each with its own limit, as the cursors say. The answer has the
cursor that is left when the limits are used up. -/
def listPages (source : String) :
    List (Option Nat) → Option String → StoreM Memory (List Record × Option String)
  | [], cursor => return ([], cursor)
  | limit :: limits, cursor => do
    let page ← store.query source ⟨none, none, limit, cursor⟩
    match page.next with
    | none => return (page.records, none)
    | some next =>
      let (rest, last) ← listPages source limits (some next)
      return (page.records ++ rest, last)

theorem page_more (hidesMore : Bool) {records : List Record} {k size : Nat}
    (h : k + size < records.length) :
    (page hidesMore records k size).records = (records.drop k).take size ∧
      (page hidesMore records k size).next = some (cursor (k + size)) := by
  simp [page, length_cut h, h]

theorem page_last (hidesMore : Bool) {records : List Record} {k size : Nat}
    (h : records.length ≤ k + size) :
    (page hidesMore records k size).records = records.drop k ∧
      (page hidesMore records k size).next = none := by
  have hstop : records.length ≤ k + (records.length - k) := by omega
  simp [page, cut_eq_drop h, hstop]

theorem run_listPages (hc : m.collectionOf source = .ok c) (hworks : m.failure? .query = none)
    (hfits : m.records.length < UInt64.size) {cursor : Option String} {k : Nat}
    (hcursor : StartsAt cursor k) {limits : List (Option Nat)}
    (hlimits : (m.live source).length - k < limits.length) :
    (listPages source limits cursor m).1 = .ok ((m.live source).drop k, none) := by
  induction limits generalizing m cursor k with
  | nil => simp at hlimits
  | cons limit limits ih =>
    have hfound : m.found source none none = m.live source := by simp [found]
    have hquery := query_eq_ok (q := ⟨none, none, limit, cursor⟩) hc hworks total_none hcursor
    have hsize : 0 < max 1 (limit.getD usualLimit) := lt_of_lt_of_le Nat.one_pos (le_max_left _ _)
    rw [hfound] at hquery
    rw [listPages, run_bind_ok hquery]
    simp only at hsize ⊢
    generalize max 1 (limit.getD usualLimit) = size at hsize ⊢
    rcases lt_or_ge (k + size) (m.live source).length with hmore | hlast
    · obtain ⟨hshown, hnext⟩ := page_more m.hidesMore hmore
      have hstop : k + size < UInt64.size :=
        hmore.trans (lt_of_le_of_lt (m.length_live_le source) hfits)
      have hnextStart : StartsAt (some (Memory.cursor (k + size))) (k + size) := .inr ⟨rfl, hstop⟩
      have hrest := ih (m := m.noted [.query source ⟨none, none, limit, cursor⟩]) hc hworks hfits
        hnextStart (by simp only [live, noted, List.length_cons] at hlimits hmore ⊢; omega)
      rw [hnext, hshown]
      rcases hrun : listPages source limits (some (Memory.cursor (k + size)))
        (m.noted [.query source ⟨none, none, limit, cursor⟩]) with ⟨answer, m'⟩
      rw [hrun] at hrest
      obtain rfl : answer = _ := hrest
      change ((listPages source limits (some (Memory.cursor (k + size))) >>= fun rest =>
        pure (((m.live source).drop k).take size ++ rest.1, rest.2)) (m.noted _)).1 = _
      rw [run_bind_ok hrun, run_pure, ← List.drop_drop]
      exact congrArg (fun rs => Except.ok (rs, none)) (List.take_append_drop _ _)
    · obtain ⟨hshown, hnext⟩ := page_last m.hidesMore hlast
      rw [hnext, hshown]
      rfl

/-- A record is found under its id. -/
theorem Numbered.record? (h : m.Numbered) {s : SourcedRecord} (hs : s ∈ m.records) :
    m.record? s.record.id = some s.record := by
  rw [Memory.record?, h.find?_id hs]
  rfl

/-- The live records of a data source are those of its ids that are outside the archive. -/
theorem Numbered.live_eq (h : m.Numbered) (source : String) : m.live source =
    (m.ids source).filterMap fun id => (m.record? id).filter fun r => !r.archived := by
  rw [live, ids, List.filterMap_map, ← List.filterMap_eq_map, List.filterMap_filter,
    List.filterMap_filter]
  refine List.filterMap_congr fun s hs => ?_
  simp only [Function.comp_apply, h.record? hs]
  by_cases hsource : s.source = source
  · cases harchived : s.record.archived <;> simp [hsource, harchived, Option.filter]
  · simp [hsource]

end Listing

/-- In any run, the records of a data source are numbered in the order in which they are added, so
no number is given twice. Then its pages, with any limits, list in this order the records that are
outside the archive by then. -/
theorem numbered_and_listed {es : List Event} (hes : ∀ e ∈ es, e.Ordered) (source : String) :
    let m := Memory.empty.after es
    let created := added source .empty es
    (∀ (k : Nat) schema (r : Record), created[k]? = some (schema, r) → ∀ name,
      Columns.declared? schema name = some PropertyType.uniqueId.key →
        r.number? name = some (.int (k + 1 : Nat))) ∧
    (∀ (i j : Nat) schema schema' (r r' : Record) name name', created[i]? = some (schema, r) →
      created[j]? = some (schema', r') →
        Columns.declared? schema name = some PropertyType.uniqueId.key →
          Columns.declared? schema' name' = some PropertyType.uniqueId.key →
            r.number? name = r'.number? name' → i = j) ∧
    ∀ c, m.collectionOf source = .ok c → m.failure? .query = none →
      m.records.length < UInt64.size → ∀ limits, created.length < limits.length →
        (listPages source limits none m).1 = .ok (created.filterMap fun e =>
          (m.record? e.2.id).filter fun r => !r.archived, none) := by
  intro m created
  have hids : m.ids source = created.map (·.2.id) := ids_after .empty source es
  have hnumbers : ∀ (k : Nat) schema (r : Record), created[k]? = some (schema, r) → ∀ name,
      Columns.declared? schema name = some PropertyType.uniqueId.key →
        r.number? name = some (.int (k + 1 : Nat)) := by
    intro k schema r hk name hname
    have hnumber := inOrder_empty.number?_added hes hk hname
    rwa [show (Memory.empty.ids source).length = 0 from rfl, Nat.zero_add] at hnumber
  refine ⟨hnumbers, fun i j schema schema' r r' name name' hi hj hname hname' heq => ?_,
    fun c hc hworks hfits limits hlimits => ?_⟩
  · rw [hnumbers i schema r hi name hname, hnumbers j schema' r' hj name' hname'] at heq
    have hint := Json.int.inj (Option.some.inj heq)
    omega
  · have hnumbered : m.Numbered := (inOrder_empty.after hes).ids
    have hlive := hnumbered.live_eq source
    rw [hids, List.filterMap_map] at hlive
    have hlength : (m.live source).length - 0 < limits.length := by
      refine lt_of_le_of_lt ?_ hlimits
      rw [hlive]
      exact List.length_filterMap_le _ _
    rw [run_listPages hc hworks hfits (.inl ⟨rfl, rfl⟩) hlength, List.drop_zero, hlive]
    rfl

/-- Notes with a number and a title. -/
def noteSchema : Properties :=
  .ofList [("Number", .ofFields [("unique_id", .ofFields [])]),
    ("Title", .ofFields [("title", .ofFields [])])]

/-- Three notes are added. The first brings a number of its own and is archived, and another one
fails. -/
def notesRun : List Event :=
  [.call (.addCollection "page" "Notes" noteSchema),
    .call (.addRecord "new-ds-1" (.ofList [("Number", .ofFields [("unique_id", .int 9)])])),
    .failWith .addRecord "offline",
    .call (.addRecord "new-ds-1" .empty),
    .clearFailures,
    .call (.changeRecord "rec-1" (.archived true)),
    .call (.addRecord "new-ds-1" .empty),
    .call (.extendSchema "new-ds-1" noteSchema),
    .call (.addRecord "new-ds-1" .empty),
    .call (.changeRecord "rec-2" (.properties .empty))]

theorem numbered_and_listed_notes :
    (∀ e ∈ notesRun, e.Ordered) ∧
    (∃ schema r, (added "new-ds-1" .empty notesRun)[1]? = some (schema, r) ∧
      Columns.declared? schema "Number" = some PropertyType.uniqueId.key ∧ r.id = "rec-2" ∧
      r.number? "Number" = some (.int 2)) ∧
    ∃ rs, (listPages "new-ds-1" [some 1, some 1, none, none] none
      (Memory.empty.after notesRun)).1 = .ok (rs, none) ∧ rs.map (·.id) = ["rec-2", "rec-3"] := by
  have hordered : ∀ e ∈ notesRun, e.Ordered := by
    simp only [notesRun, List.forall_mem_cons]
    refine ⟨KeyMap.sorted_ofList _, KeyMap.sorted_ofList _, trivial, List.Pairwise.nil, trivial,
      trivial, List.Pairwise.nil, KeyMap.sorted_ofList _, List.Pairwise.nil, List.Pairwise.nil,
      nofun⟩
  obtain ⟨hnumbers, -, hlisted⟩ := numbered_and_listed hordered "new-ds-1"
  refine ⟨hordered, ?_, ?_⟩
  · have hsecond : ∃ schema r, (added "new-ds-1" .empty notesRun)[1]? = some (schema, r) ∧
        Columns.declared? schema "Number" = some PropertyType.uniqueId.key ∧ r.id = "rec-2" :=
      ⟨_, _, rfl, rfl, rfl⟩
    obtain ⟨schema, r, hr, hdeclared, hid⟩ := hsecond
    exact ⟨schema, r, hr, hdeclared, hid, hnumbers 1 schema r hr "Number" hdeclared⟩
  · exact ⟨_, hlisted _ rfl rfl (by decide) _ (by decide), rfl⟩

end Memory
end DocTables
