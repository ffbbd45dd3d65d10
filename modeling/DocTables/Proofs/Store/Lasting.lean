import DocTables.Proofs.Store.Numbering

/-!
What becomes of the stamps that a record gets when it is added. No change of the store's own touches
them, but a change that names them replaces them: a stamp is what was last written under its name.
-/
namespace DocTables
open Outcome

theorem Stamp.renews_iff {schema : Properties} (hs : schema.Sorted) {name : String} :
    Stamp.Renews schema name ↔
      Columns.declared? schema name = some PropertyType.lastEditedTime.key := by
  constructor
  · rintro ⟨config, hmem, htype⟩
    rw [Columns.declared?, hs.get?_of_mem hmem]
    exact htype
  · intro h
    obtain ⟨config, hconfig, htype⟩ := Option.bind_eq_some_iff.mp h
    exact ⟨config, KeyMap.mem_of_get? hconfig, htype⟩

namespace Change

/-- The property that a change brings under a name. -/
def property? : Change → String → Option Json
  | properties ps, name => (ps.get? name).map Stamp.tagged
  | archived _, _ => none

end Change

namespace Memory
variable {m m' : Memory} {source id name : String} {schema : Properties}

section Writing

/-- What a change that is write number `n` leaves under a name: the time of the edit if the schema
declares one there, else what it brings. -/
def rewriting? (schema : Properties) (n : Nat) (change : Change) (name : String) : Option Json :=
  if Columns.declared? schema name = some PropertyType.lastEditedTime.key then
    some (Stamp.property .lastEditedTime (.string (Stamp.time n)))
  else change.property? name

theorem get?_changed (hs : schema.Sorted) (change : Change) (n : Nat) (r : Record)
    (hchange : ∀ ps, change = .properties ps → ps.Sorted) (name : String) :
    (changed schema n change r).properties.get? name =
      (rewriting? schema n change name).or (r.properties.get? name) := by
  have hedited : ∀ (ps : Properties) (r : Record), ps.Sorted →
      (changed schema n (.properties ps) r).properties.get? name =
        (rewriting? schema n (.properties ps) name).or (r.properties.get? name) := by
    intro ps r hps
    have hafter := edited_changed schema hps n r
    unfold rewriting?
    split
    next h => exact hafter.stamped name ((Stamp.renews_iff hs).mpr h)
    next h =>
      have hkept := mt (Stamp.renews_iff hs).mp h
      cases hget : ps.get? name with
      | none => simp [Change.property?, hget, hafter.kept name hkept hget]
      | some payload => simp [Change.property?, hget, hafter.written name hkept payload hget]
  cases change with
  | properties ps => exact hedited ps r (hchange ps rfl)
  | archived flag =>
    -- Apart from the flag this is a change of no properties.
    exact hedited .empty { r with archived := flag } List.Pairwise.nil

/-- What an event writes under a name of a record in a data source. -/
def rewrite? (source id name : String) (m : Memory) : Event → Option Json
  | .call (.changeRecord other change) =>
    if other = id then
      match m.collectionOf source, (store.changeRecord id change m).1 with
      | .ok c, .ok _ => rewriting? c.properties (m.writes + 1) change name
      | _, _ => none
    else none
  | _ => none

theorem rewrite?_unwritten {e : Event}
    (hchange : ∀ id change, e = .call (.changeRecord id change) →
      ∃ x, (store.changeRecord id change m).1 = .error x) :
    rewrite? source id name m e = none := by
  unfold rewrite?
  split
  next other change =>
    split
    next h =>
      subst h
      obtain ⟨x, hx⟩ := hchange other change rfl
      rw [hx]
      split <;> simp_all
    next => rfl
  next => rfl

/-- A record in its place some time later, when `written` is what was last written under a name. -/
structure Onward (written : Option Json) (name : String) (s s' : SourcedRecord) : Prop where
  id : s'.record.id = s.record.id
  source : s'.source = s.source
  created : s'.record.created = s.record.created
  property : s'.record.properties.get? name = written.or (s.record.properties.get? name)

theorem InOrder.onward (h : m.InOrder) {e : Event} (he : e.Ordered) {s : SourcedRecord}
    (hs : s ∈ m.records) (name : String) :
    ∃ s' ∈ (e.act m).records, Onward (rewrite? s.source s.record.id name m e) name s s' := by
  have hdone := done_act m e
  generalize e.act m = m' at hdone ⊢
  cases hdone with
  | added => exact ⟨s, List.mem_append_left _ hs, rfl, rfl, rfl, rfl⟩
  | @changed change s₀ c hs₀ hc hanswer =>
    have hmem : ∀ r, (if s.record.id = r.id then { s with record := r } else s) ∈
        ((m.noted [.changeRecord s₀.record.id change]).withChanged r).records := fun r =>
      List.mem_map_of_mem (f := fun s => if s.record.id = r.id then { s with record := r } else s) hs
    refine ⟨_, hmem _, ?_⟩
    rw [id_changed]
    by_cases hid : s.record.id = s₀.record.id
    · -- Ids are distinct, so this is the record that the store found.
      obtain rfl : s = s₀ := List.inj_on_of_nodup_map h.ids.nodup hs hs₀ hid
      rw [if_pos rfl]
      refine ⟨id_changed .., rfl, ?_, ?_⟩
      · cases change <;> rfl
      · have hget := get?_changed (h.schemas.of_collectionOf hc) change (m.writes + 1) s.record
          (fun ps hps => by subst hps; exact he) name
        simp only [hget, rewrite?, hc, hanswer, if_true]
    · rw [if_neg hid]
      refine ⟨rfl, rfl, rfl, ?_⟩
      simp [rewrite?, Ne.symm hid]
  | unwritten hrecords _ _ hchange =>
    refine ⟨s, hrecords ▸ hs, rfl, rfl, rfl, ?_⟩
    rw [rewrite?_unwritten hchange]
    rfl

/-- What a run writes under a name of a record in a data source, oldest first. -/
def rewrites (source id name : String) (m : Memory) (es : List Event) : List Json :=
  gathered (rewrite? source id name) m es

theorem InOrder.onward_after (h : m.InOrder) {es : List Event} (hes : ∀ e ∈ es, e.Ordered)
    {s : SourcedRecord} (hs : s ∈ m.records) (name : String) :
    ∃ s' ∈ (m.after es).records,
      Onward (rewrites s.source s.record.id name m es).getLast? name s s' := by
  induction es generalizing m s with
  | nil => exact ⟨s, hs, rfl, rfl, rfl, rfl⟩
  | cons e es ih =>
    obtain ⟨he, hes⟩ := List.forall_mem_cons.mp hes
    obtain ⟨s₁, hs₁, hfirst⟩ := h.onward he hs name
    obtain ⟨s', hs', hlater⟩ := ih (h.act he) hes hs₁
    rw [hfirst.id, hfirst.source] at hlater
    refine ⟨s', hs', hlater.id.trans hfirst.id, hlater.source.trans hfirst.source,
      hlater.created.trans hfirst.created, ?_⟩
    have hcons : rewrites s.source s.record.id name m (e :: es) =
        (rewrite? s.source s.record.id name m e).toList ++
          rewrites s.source s.record.id name (e.act m) es := rfl
    rw [hlater.property, hfirst.property, hcons, List.getLast?_append, Option.or_assoc]
    cases rewrite? s.source s.record.id name m e <;> rfl

end Writing

/-- A property that the store maintains is stamped when its record is added, and from then on it is
what was last written under its name: a stamp lasts until a change names it, or until an edit after
its name has been declared a time of last edit. When the record was added is never changed. -/
theorem stamp_lasts {before later : List Event} {e : Event}
    (hes : ∀ e' ∈ before ++ e :: later, e'.Ordered) {r : Record} {t : PropertyType}
    (hadded : added? source (Memory.empty.after before) e = some (schema, r))
    (ht : t.isMaintained = true) (hname : Columns.declared? schema name = some t.key) :
    let m := Memory.empty.after before
    ∃ config content r', schema.get? name = some config ∧
      Stamp.content? t config (Stamp.time (m.writes + 1)) ((m.ids source).length + 1) =
        some content ∧
      r.properties.get? name = some (Stamp.property t content) ∧
      ((e.act m).after later).record? r.id = some r' ∧ r'.created = r.created ∧
      r'.properties.get? name = some
        ((rewrites source r.id name (e.act m) later).getLastD (Stamp.property t content)) := by
  intro m
  obtain ⟨hbefore, he, hlater⟩ := by
    simpa only [List.forall_mem_append, List.forall_mem_cons] using hes
  have hm : m.InOrder := inOrder_empty.after hbefore
  obtain ⟨ps, c, -, hc, rfl, rfl, hmem⟩ := added?_eq_some hadded
  obtain ⟨config, hconfig, htype⟩ := Option.bind_eq_some_iff.mp hname
  obtain ⟨content, hcontent⟩ : ∃ content, Stamp.content? t config (Stamp.time (m.writes + 1))
      ((m.ids source).length + 1) = some content := by
    rw [← Option.isSome_iff_exists, Stamp.isSome_content?]
    exact ht
  have hstamped : (m.newRecord c source ps).properties.get? name =
      some (Stamp.property t content) := by
    rw [get?_newRecord (hm.schemas.of_collectionOf hc) hconfig htype, ← length_ids, hcontent]
    rfl
  have hact := hm.act he
  obtain ⟨s', hs', hkept⟩ := hact.onward_after hlater hmem name
  refine ⟨config, content, s'.record, hconfig, hcontent, hstamped, ?_, hkept.created, ?_⟩
  · rw [← hkept.id]
    exact (hact.after hlater).ids.record? hs'
  · rw [hkept.property, hstamped]
    rw [List.getLastD_eq_getLast?]
    cases (rewrites source (m.newRecord c source ps).id name (e.act m) later).getLast? <;> rfl

/-- A log whose entries are stamped with their times and numbers. -/
def logSchema : Properties :=
  .ofList [("Made", .ofFields [("created_time", .ofFields [])]),
    ("Number", .ofFields [("unique_id", .ofFields [("prefix", .string "L")])])]

def logOpened : List Event := [.call (.addCollection "page" "Log" logSchema)]

/-- A change that names the time when an entry was made. -/
def backdating : Properties :=
  .ofList [("Made", .ofFields [("created_time", .string "1999-12-31T00:00:00.000Z")])]

def logEntry : Event := .call (.addRecord "new-ds-1" .empty)

def logBackdated : List Event := [.call (.changeRecord "rec-1" (.properties backdating))]

theorem ordered_logBackdated : ∀ e ∈ logOpened ++ logEntry :: logBackdated, e.Ordered := by
  simp only [logOpened, logEntry, logBackdated, List.cons_append, List.nil_append,
    List.forall_mem_cons]
  exact ⟨KeyMap.sorted_ofList _, List.Pairwise.nil, KeyMap.sorted_ofList _, nofun⟩

theorem added?_logEntry : ∃ schema r,
    added? "new-ds-1" (Memory.empty.after logOpened) logEntry = some (schema, r) ∧ r.id = "rec-1" ∧
      Columns.declared? schema "Made" = some PropertyType.createdTime.key ∧
      Columns.declared? schema "Number" = some PropertyType.uniqueId.key :=
  ⟨_, _, rfl, rfl, rfl, rfl⟩

/-- The number of a log entry lasts, the time when it was made is replaced. -/
theorem stamp_lasts_log :
    (∀ e ∈ logOpened ++ logEntry :: logBackdated, e.Ordered) ∧
    ∃ schema r r', added? "new-ds-1" (Memory.empty.after logOpened) logEntry = some (schema, r) ∧
      ((logEntry.act (Memory.empty.after logOpened)).after logBackdated).record? "rec-1" = some r' ∧
      r'.created = r.created ∧ r'.properties.get? "Number" = r.properties.get? "Number" ∧
      r'.properties.get? "Made" =
        some (Stamp.property .createdTime (.string "1999-12-31T00:00:00.000Z")) := by
  obtain ⟨schema, r, hadded, hid, hmade, hnumber⟩ := added?_logEntry
  obtain ⟨_, content, r', -, -, hstamp, hr', hcreated, hkept⟩ :=
    stamp_lasts ordered_logBackdated hadded rfl hnumber
  obtain ⟨_, _, r'', -, -, -, hr'', -, hlast⟩ :=
    stamp_lasts ordered_logBackdated hadded rfl hmade
  obtain rfl : r' = r'' := Option.some.inj (hr'.symm.trans hr'')
  rw [hid] at hr' hkept hlast
  refine ⟨ordered_logBackdated, schema, r, r', hadded, hr', hcreated, ?_, ?_⟩
  · rw [hkept, hstamp]
    rfl
  · rw [hlast]
    rfl

/-- What the store maintains from the time of adding a record on is not out of reach of changes. -/
theorem not_forall_stamp_kept :
    ¬ ∀ (before later : List Event) (e : Event) (source name : String) (schema : Properties)
        (r : Record) (t : PropertyType), (∀ e' ∈ before ++ e :: later, e'.Ordered) →
      added? source (Memory.empty.after before) e = some (schema, r) →
      t ∈ [PropertyType.createdTime, .createdBy, .uniqueId] →
      Columns.declared? schema name = some t.key →
      ∃ r', ((e.act (Memory.empty.after before)).after later).record? r.id = some r' ∧
        r'.properties.get? name = r.properties.get? name := by
  intro hall
  have hlog : ∃ schema r, added? "new-ds-1" (Memory.empty.after logOpened) logEntry =
      some (schema, r) ∧ r.id = "rec-1" ∧
      Columns.declared? schema "Made" = some PropertyType.createdTime.key ∧
      r.properties.get? "Made" =
        some (Stamp.property .createdTime (.string "2024-01-01T00:00:01.000Z")) :=
    ⟨_, _, rfl, rfl, rfl, rfl⟩
  obtain ⟨schema, r, hadded, hid, hdeclared, hmade⟩ := hlog
  obtain ⟨r', hr', hkept⟩ := hall logOpened logBackdated logEntry "new-ds-1" "Made" schema r
    .createdTime ordered_logBackdated hadded List.mem_cons_self hdeclared
  have hbackdated : ∃ r'', ((logEntry.act (Memory.empty.after logOpened)).after
      logBackdated).record? "rec-1" = some r'' ∧ r''.properties.get? "Made" =
        some (Stamp.property .createdTime (.string "1999-12-31T00:00:00.000Z")) := ⟨_, rfl, rfl⟩
  obtain ⟨r'', hr'', hchanged⟩ := hbackdated
  rw [hid, hr''] at hr'
  obtain rfl := Option.some.inj hr'
  rw [hmade, hchanged] at hkept
  have htimes := congrArg (fun p => (p.bind (·.get? "created_time")).bind Json.string?) hkept
  exact absurd htimes (by decide)

end Memory
end DocTables
