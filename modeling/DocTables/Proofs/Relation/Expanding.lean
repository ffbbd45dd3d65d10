import DocTables.Proofs.Relation.Fetching
import DocTables.Proofs.Workspace.Identified

/-!
Expanding relations. Every reference of a column that is asked for is replaced by the record that it
points to in the registered target of the column, each such record is read once, and everything else
in the rows stays as it is. A column that cannot be expanded is refused before anything is read.
-/
namespace DocTables
open Outcome Effect

section References
variable {xs : List Expansion} {rows : List DecodedRecord}

/-- Targets are collected once each. -/
structure Reading.Collects (ts : List Table) (xs : List Expansion) : Prop where
  nodup : (ts.map Table.id).Nodup
  exists_expansion : ∀ t ∈ ts, ∃ x ∈ xs, x.target = t
  exists_table : ∀ x ∈ xs, ∃ t ∈ ts, t.id = x.target.id

theorem Reading.Collects.add {ts : List Table} (h : Collects ts xs) (x : Expansion) :
    Collects (tablesOf.add x ts) (x :: xs) := by
  have hold : ∀ t ∈ ts, ∃ y ∈ x :: xs, y.target = t := by
    intro t ht
    obtain ⟨y, hy, heq⟩ := h.exists_expansion t ht
    exact ⟨y, List.mem_cons_of_mem _ hy, heq⟩
  unfold tablesOf.add
  split
  next hany =>
    obtain ⟨t, ht, hid⟩ := List.any_eq_true.mp hany
    refine ⟨h.nodup, hold, List.forall_mem_cons.mpr ⟨⟨t, ht, ?_⟩, h.exists_table⟩⟩
    simpa using hid
  next hany =>
    constructor
    · rw [List.map_cons, List.nodup_cons]
      refine ⟨fun hmem => hany ?_, h.nodup⟩
      obtain ⟨t, ht, hid⟩ := List.mem_map.mp hmem
      exact List.any_eq_true.mpr ⟨t, ht, by simpa using hid⟩
    · exact List.forall_mem_cons.mpr ⟨⟨x, List.mem_cons_self, rfl⟩, hold⟩
    · refine List.forall_mem_cons.mpr ⟨⟨x.target, List.mem_cons_self, rfl⟩, fun y hy => ?_⟩
      obtain ⟨t, ht, hid⟩ := h.exists_table y hy
      exact ⟨t, List.mem_cons_of_mem _ ht, hid⟩

theorem Reading.collects_tablesOf (xs : List Expansion) : Collects (tablesOf xs) xs := by
  have hfold : Collects (xs.foldr tablesOf.add []) xs := by
    induction xs with
    | nil => exact ⟨List.nodup_nil, nofun, nofun⟩
    | cons x xs ih => exact ih.add x
  have hperm := StableSort.sort_perm (fun a b : Table => decide (a.id < b.id))
    (xs.foldr tablesOf.add [])
  constructor
  · exact (hperm.map Table.id).nodup_iff.mpr hfold.nodup
  · intro t ht
    exact hfold.exists_expansion t (hperm.subset ht)
  · intro x hx
    obtain ⟨t, ht, hid⟩ := hfold.exists_table x hx
    exact ⟨t, hperm.symm.subset ht, hid⟩

/-- The jobs for expansions: one for every record that is referred to. -/
theorem Reading.mem_ofExpansions {r : Reading} :
    r ∈ ofExpansions xs rows ↔ r.table ∈ tablesOf xs ∧
      ∃ x ∈ xs, x.target.id = r.table.id ∧ r.record ∈ x.recordIds rows := by
  obtain ⟨table, record⟩ := r
  simp only [ofExpansions, List.mem_flatMap, List.mem_map, KeyMap.mem_keys_ofList, mk.injEq,
    List.mem_filter, decide_eq_true_eq]
  constructor
  · rintro ⟨t, ht, id, ⟨e, ⟨id', ⟨x, ⟨hx, hid⟩, hrecord⟩, rfl⟩, rfl⟩, rfl, rfl⟩
    exact ⟨ht, x, hx, hid, hrecord⟩
  · rintro ⟨ht, x, hx, hid, hrecord⟩
    exact ⟨table, ht, record, ⟨_, ⟨record, ⟨x, ⟨hx, hid⟩, hrecord⟩, rfl⟩, rfl⟩, rfl, rfl⟩

theorem Reading.nodup_ofExpansions (xs : List Expansion) (rows : List DecodedRecord) :
    ((ofExpansions xs rows).map key).Nodup := by
  rw [ofExpansions, List.map_flatMap, List.nodup_flatMap]
  refine ⟨fun t _ => ?_, ?_⟩
  · rw [List.map_map]
    refine (KeyMap.sorted_ofList _).nodup.map fun id id' heq => ?_
    exact (Prod.mk.inj heq).2
  · refine (List.pairwise_map.mp (collects_tablesOf xs).nodup).imp fun hne => ?_
    -- The jobs of two tables differ in the number of the table.
    refine List.disjoint_left.mpr ?_
    simp only [List.mem_map, key]
    rintro _ ⟨_, ⟨_, _, rfl⟩, rfl⟩ ⟨_, ⟨_, _, rfl⟩, heq⟩
    exact hne (Prod.mk.inj heq).1.symm

end References

section Rendering

/-- A record with all that the store says of it, each under a key of its own. What it lacks is
null. -/
structure ShowsRecord (r : Record) (page : KeyMap Value) : Prop where
  sorted : page.Sorted
  id : page.get? "id" = some (.string r.id)
  archived : page.get? "archived" = some (.bool r.archived)
  created : page.get? "created_time" = some (r.created.elim .null .string)
  edited : page.get? "last_edited_time" = some (r.edited.elim .null .string)
  url : page.get? "url" = some (r.url.elim .null .string)
  properties : page.get? "properties" = some (.map (r.properties.map Value.ofJson))
  others : ∀ k, k ∉ ["id", "archived", "created_time", "last_edited_time", "url", "properties"] →
    page.get? k = none

/-- A row together with the record that it was decoded from. -/
structure ShowsRow (d : DecodedRecord) (shown : KeyMap Value) : Prop where
  sorted : shown.Sorted
  data : shown.get? "data" = some (.map d.row)
  page : ∃ page, shown.get? "page" = some (.map page) ∧ ShowsRecord d.record page
  others : ∀ k, k ∉ ["data", "page"] → shown.get? k = none

/-- What may stand for a reference to a record with this id. -/
inductive Renders (id : String) (d : DecodedRecord) : Rendering → Value → Prop
  | whole {shown : KeyMap Value} (h : ShowsRow d shown) : Renders id d .whole (.map shown)
  | fields {keys : List String} {shown : KeyMap Value} (hsorted : shown.Sorted)
      (h : ∀ k, shown.get? k = (if k ∈ keys then d.row.get? k else none).or
        (if k = "id" then some (.string id) else none)) : Renders id d (.fields keys) (.map shown)

theorem lookup_filterMap_keys {α : Type} (g : String → Option α) (k : String)
    (keys : List String) : KeyMap.lookup k (keys.filterMap fun j => (g j).map fun v => (j, v)) =
      if k ∈ keys then g k else none := by
  induction keys with
  | nil => rfl
  | cons j keys ih =>
    rw [List.filterMap_cons]
    cases hj : g j with
    | none =>
      simp only [Option.map_none, ih, List.mem_cons]
      by_cases hk : k = j
      · rw [hk, hj]
        simp
      · simp [hk]
    | some v =>
      simp only [Option.map_some, KeyMap.lookup, ih, List.mem_cons]
      by_cases hk : k = j
      · simp [hk, hj]
      · simp [hk, Ne.symm hk]

theorem Value.ofJsonFields_eq (es : List (String × Json)) :
    ofJsonFields es = es.map fun e => (e.1, ofJson e.2) := by
  induction es with
  | nil => rw [ofJsonFields, List.map_nil]
  | cons e es ih => rw [ofJsonFields, ih, List.map_cons]

theorem Value.ofJson_object (ps : Properties) : ofJson (.object ps) = .map (ps.map ofJson) := by
  obtain ⟨es⟩ := ps
  rw [ofJson, ofJsonFields_eq, KeyMap.map]

theorem Value.ofString?_eq (s : Option String) : ofString? s = s.elim .null .string := by
  cases s <;> rfl

theorem showsRecord_toValue (r : Record) :
    ∃ page, r.toValue = .map page ∧ ShowsRecord r page := by
  refine ⟨_, rfl, ?_⟩
  simp only [Value.ofString?_eq, Value.ofJson_object]
  constructor
  case sorted => exact KeyMap.sorted_ofList _
  case others => exact fun k hk => KeyMap.get?_ofList_of_not_mem hk
  all_goals exact KeyMap.get?_ofList _ _

theorem showsRow_render (id : String) (d : DecodedRecord) :
    ∃ shown, Rendering.whole.render id d = .map shown ∧ ShowsRow d shown := by
  obtain ⟨page, hpage, hrecord⟩ := showsRecord_toValue d.record
  refine ⟨_, rfl, KeyMap.sorted_ofList _, KeyMap.get?_ofList _ _, ⟨page, ?_, hrecord⟩, ?_⟩
  · rw [← hpage]
    exact KeyMap.get?_ofList _ _
  · exact fun k hk => KeyMap.get?_ofList_of_not_mem hk

theorem renders_render (how : Rendering) (id : String) (d : DecodedRecord) :
    Renders id d how (how.render id d) := by
  cases how with
  | whole =>
    obtain ⟨shown, hshown, hshows⟩ := showsRow_render id d
    rw [hshown]
    exact .whole hshows
  | fields keys =>
    refine .fields (KeyMap.sorted_ofList _) fun k => ?_
    rw [KeyMap.get?_ofList, List.reverse_cons, KeyMap.lookup_append, ← List.filterMap_reverse,
      lookup_filterMap_keys]
    simp only [List.mem_reverse, KeyMap.lookup, eq_comm]

end Rendering

namespace Expansion
variable {found : Nat → String → Option DecodedRecord} {xs : List Expansion} {k : String}

/-- The value of a column after its references are replaced. -/
def shown (found : Nat → String → Option DecodedRecord) (x : Expansion) : Value → Value
  | .array vs => .array (vs.map (x.replace found))
  | v => v

theorem get?_apply (found : Nat → String → Option DecodedRecord) (row : Row) (x : Expansion)
    (k : String) : (apply found row x).get? k =
      if k = x.key then (row.get? k).map (x.shown found) else row.get? k := by
  unfold apply
  split
  next vs harray =>
    rw [KeyMap.get?_insert]
    split
    next hk => rw [hk, harray]; rfl
    next => rfl
  next hother =>
    split
    next hk =>
      rw [hk]
      cases hget : row.get? x.key with
      | none => rfl
      | some v =>
        cases v with
        | array vs => exact absurd hget (hother vs)
        | _ => rfl
    next => rfl

theorem get?_foldl_of_not_mem (hk : k ∉ xs.map Expansion.key) (row : Row) :
    (xs.foldl (apply found) row).get? k = row.get? k := by
  induction xs generalizing row with
  | nil => rfl
  | cons x xs ih =>
    rw [List.map_cons, List.mem_cons, not_or] at hk
    rw [List.foldl_cons, ih hk.2, get?_apply, if_neg hk.1]

theorem get?_foldl_of_mem (hdistinct : (xs.map Expansion.key).Nodup) {x : Expansion} (hx : x ∈ xs)
    (row : Row) : (xs.foldl (apply found) row).get? x.key =
      (row.get? x.key).map (x.shown found) := by
  induction xs generalizing row with
  | nil => exact nomatch hx
  | cons y xs ih =>
    obtain ⟨hy, hrest⟩ := List.nodup_cons.mp hdistinct
    rw [List.foldl_cons]
    rcases List.mem_cons.mp hx with rfl | hx
    · rw [get?_foldl_of_not_mem hy, get?_apply, if_pos rfl]
    · have hne : x.key ≠ y.key := fun heq => hy (heq ▸ List.mem_map_of_mem hx)
      rw [ih hrest hx, get?_apply, if_neg hne]

end Expansion

namespace Workspace
open Reading
variable {w w' : Workspace} {t : Table} {rows out : List DecodedRecord} {spec : KeyMap Rendering}
  {xs : List Expansion}

/-- Why a column cannot be expanded. -/
def refusal? (w : Workspace) (t : Table) (key : String) : Option TableError :=
  match t.columns.get? key with
  | none => some (.noColumn key)
  | some c =>
    if c.type ≠ .relation then some (.notRelation key)
    else if (w.target? t key).isNone then some (.noTarget key)
    else none

/-- Some row refers to the record in a column to expand, whose target is the table. -/
def Refers (w : Workspace) (t : Table) (rows : List DecodedRecord) (spec : KeyMap Rendering)
    (r : Reading) : Prop :=
  ∃ key ∈ spec.keys, w.target? t key = some r.table ∧ ∃ e ∈ rows, ∃ vs,
    e.row.get? key = some (.array vs) ∧ ∃ v ∈ vs, v.reference? = some r.record

/-- An element of an array and what it becomes. -/
inductive Replaced (w : Workspace) (target : Table) (how : Rendering) : Value → Value → Prop
  | kept {v : Value} (h : v.reference? = none) : Replaced w target how v v
  | shown {v v' : Value} {id : String} {d : DecodedRecord} (h : v.reference? = some id)
      (hrecord : (w.memory target.store).record? id = some d.record)
      (hdecode : target.columns.decode d.record = .ok d) (hshown : Renders id d how v') :
      Replaced w target how v v'

/-- A value and what it becomes: only arrays change. -/
inductive Spelled (w : Workspace) (target : Table) (how : Rendering) :
    Option Value → Option Value → Prop
  | array {vs vs' : List Value} (h : List.Forall₂ (Replaced w target how) vs vs') :
      Spelled w target how (some (.array vs)) (some (.array vs'))
  | other {v? : Option Value} (h : ∀ vs, v? ≠ some (.array vs)) : Spelled w target how v? v?

theorem Replaced.whole {target : Table} {v : Value} {shown : KeyMap Value} {id : String}
    (h : Replaced w target .whole v (.map shown)) (hid : v.reference? = some id) :
    ∃ d, (w.memory target.store).record? id = some d.record ∧
      target.columns.decode d.record = .ok d ∧ ShowsRow d shown := by
  cases h with
  | kept hnone => exact nomatch hnone.symm.trans hid
  | shown hid' hrecord hdecode hrenders =>
    obtain rfl := Option.some.inj (hid'.symm.trans hid)
    cases hrenders with
    | whole hshows => exact ⟨_, hrecord, hdecode, hshows⟩

/-- An array becomes an array, element by element. -/
theorem Spelled.exists_array {target : Table} {how : Rendering} {vs : List Value}
    {v? : Option Value} (h : Spelled w target how (some (.array vs)) v?) :
    ∃ vs', v? = some (.array vs') ∧ List.Forall₂ (Replaced w target how) vs vs' := by
  cases h with
  | array hvalues => exact ⟨_, rfl, hvalues⟩
  | other hother => exact absurd rfl (hother vs)

/-- A row and what it becomes. -/
structure Expanded (w : Workspace) (t : Table) (spec : KeyMap Rendering)
    (e e' : DecodedRecord) : Prop where
  record : e'.record = e.record
  others : ∀ key ∉ spec.keys, e'.row.get? key = e.row.get? key
  columns : ∀ key how, spec.get? key = some how → ∃ target, w.target? t key = some target ∧
    Spelled w target how (e.row.get? key) (e'.row.get? key)

def expansion (w : Workspace) (t : Table) (e : String × Rendering) :
    Except TableError Expansion := do
  let _ ← t.relationColumn e.1
  match w.target? t e.1 with
  | some target => return ⟨e.1, e.2, target⟩
  | none => .error (.noTarget e.1)

theorem expansions_eq (w : Workspace) (t : Table) (spec : KeyMap Rendering) :
    t.expansions (w.target? t) spec = spec.entries.mapM (w.expansion t) := rfl

theorem expansion_eq_error {e : String × Rendering} {cause : TableError}
    (h : w.refusal? t e.1 = some cause) : w.expansion t e = .error cause := by
  unfold refusal? at h
  unfold expansion Table.relationColumn Table.column? Columns.column?
  split at h
  next hc => rw [hc, ← Option.some.inj h]; rfl
  next c hc =>
    rw [hc]
    split at h
    next htype =>
      obtain rfl := Option.some.inj h
      simp [bind, Except.bind, htype]
    next htype =>
      split at h
      next hnone =>
        obtain rfl := Option.some.inj h
        simp only [ne_eq, not_not] at htype
        simp [bind, Except.bind, htype, Option.isNone_iff_eq_none.mp hnone, pure, Except.pure]
      next => exact nomatch h

theorem expansion_eq_ok {e : String × Rendering} (h : w.refusal? t e.1 = none) :
    ∃ x, w.expansion t e = .ok x ∧ x.key = e.1 ∧ x.rendering = e.2 ∧
      w.target? t e.1 = some x.target := by
  unfold refusal? at h
  unfold expansion Table.relationColumn Table.column? Columns.column?
  split at h
  next => exact nomatch h
  next c hc =>
    split at h
    next => exact nomatch h
    next htype =>
      split at h
      next => exact nomatch h
      next hsome =>
        obtain ⟨target, htarget⟩ := Option.ne_none_iff_exists'.mp
          (fun hnone => hsome (Option.isNone_iff_eq_none.mpr hnone))
        simp only [ne_eq, not_not] at htype
        refine ⟨⟨e.1, e.2, target⟩, ?_, rfl, rfl, htarget⟩
        simp [hc, bind, Except.bind, htype, htarget, pure, Except.pure]

/-- The columns that are asked for, each with its registered target. -/
def Targeted (w : Workspace) (t : Table) (e : String × Rendering) (x : Expansion) : Prop :=
  x.key = e.1 ∧ x.rendering = e.2 ∧ w.target? t e.1 = some x.target

theorem expansions_eq_error {cause : TableError}
    (h : spec.keys.findSome? (w.refusal? t) = some cause) :
    t.expansions (w.target? t) spec = .error cause := by
  rw [KeyMap.keys, List.findSome?_map] at h
  rw [expansions_eq]
  exact mapM_eq_error (fun e _ he => expansion_eq_error he)
    (fun e he => (expansion_eq_ok he).imp fun _ hx => hx.1) h

theorem expansions_total (h : spec.keys.findSome? (w.refusal? t) = none) :
    ∃ xs, t.expansions (w.target? t) spec = .ok xs := by
  rw [KeyMap.keys, List.findSome?_map, List.findSome?_eq_none_iff] at h
  rw [expansions_eq]
  exact mapM_total fun e he => (expansion_eq_ok (h e he)).imp fun _ hx => hx.1

theorem expansions_eq_ok (h : t.expansions (w.target? t) spec = .ok xs) :
    List.Forall₂ (w.Targeted t) spec.entries xs := by
  refine (mapM_eq_ok.mp h).imp fun e x (hx : w.expansion t e = .ok x) => ?_
  cases hrefusal : w.refusal? t e.1 with
  | some cause => exact nomatch hx.symm.trans (expansion_eq_error hrefusal)
  | none =>
    obtain ⟨x', hok, htargeted⟩ := expansion_eq_ok hrefusal
    obtain rfl := Except.ok.inj (hok.symm.trans hx)
    exact htargeted

theorem keys_of_targeted {es : List (String × Rendering)}
    (h : List.Forall₂ (w.Targeted t) es xs) : xs.map Expansion.key = es.map Prod.fst := by
  induction h with
  | nil => rfl
  | cons hx _ ih => rw [List.map_cons, List.map_cons, hx.1, ih]

theorem Expansion.mem_recordIds {x : Expansion} {id : String} : id ∈ x.recordIds rows ↔
    ∃ e ∈ rows, ∃ vs, e.row.get? x.key = some (.array vs) ∧ ∃ v ∈ vs, v.reference? = some id := by
  simp only [Expansion.recordIds, List.mem_flatMap, List.mem_filterMap]
  refine exists_congr fun e => and_congr_right fun _ => ?_
  unfold Expansion.references
  cases hget : e.row.get? x.key with
  | none => simp
  | some v => cases v <;> simp [Value.array?]

/-- What the columns to expand refer to is what the jobs read. -/
theorem mem_jobs (hw : w.Identified) (hxs : List.Forall₂ (w.Targeted t) spec.entries xs)
    {r : Reading} : r ∈ ofExpansions xs rows ↔ Refers w t rows spec r := by
  obtain ⟨-, hfrom, hto⟩ := collects_tablesOf xs
  have htarget : ∀ x ∈ xs, x.key ∈ spec.keys ∧ w.target? t x.key = some x.target := by
    intro x hx
    obtain ⟨e, he, hkey, -, htarget⟩ := (exists_mem_of_forall₂ hxs).2 x hx
    rw [hkey]
    exact ⟨List.mem_map_of_mem he, htarget⟩
  have hsame : ∀ x ∈ xs, ∀ y ∈ xs, x.target.id = y.target.id → x.target = y.target :=
    fun x hx y hy => hw.same _ _ (known_of_target? (htarget x hx).2)
      (known_of_target? (htarget y hy).2)
  rw [mem_ofExpansions]
  constructor
  · rintro ⟨ht, x, hx, hid, hrecord⟩
    obtain ⟨y, hy, heq⟩ := hfrom r.table ht
    rw [← heq] at hid
    refine ⟨x.key, (htarget x hx).1, ?_, Expansion.mem_recordIds.mp hrecord⟩
    rw [← heq, ← hsame x hx y hy hid]
    exact (htarget x hx).2
  · rintro ⟨key, hkey, hr, hrefers⟩
    obtain ⟨⟨key, how⟩, he, rfl⟩ := List.mem_map.mp hkey
    obtain ⟨x, hx, rfl, -, hx'⟩ := (exists_mem_of_forall₂ hxs).1 _ he
    have heq : x.target = r.table := Option.some.inj (hx'.symm.trans hr)
    obtain ⟨u, hu, hid⟩ := hto x hx
    obtain ⟨y, hy, rfl⟩ := hfrom u hu
    rw [hsame y hy x hx hid, heq] at hu
    exact ⟨hu, x, hx, by rw [heq], Expansion.mem_recordIds.mpr hrefers⟩

theorem foldl_expanded (hspec : spec.Sorted) (hxs : List.Forall₂ (w.Targeted t) spec.entries xs)
    {found : Nat → String → Option DecodedRecord} {e : DecodedRecord}
    (hfound : ∀ x ∈ xs, ∀ vs, e.row.get? x.key = some (.array vs) → ∀ v ∈ vs, ∀ id,
      v.reference? = some id → ∃ d, found x.target.id id = some d ∧
        fetch w ⟨x.target, id⟩ = .ok d) :
    Expanded w t spec e { e with row := xs.foldl (Expansion.apply found) e.row } := by
  have hkeys : xs.map Expansion.key = spec.keys := keys_of_targeted hxs
  refine ⟨rfl, fun key hkey => Expansion.get?_foldl_of_not_mem (hkeys ▸ hkey) e.row, ?_⟩
  intro key how hget
  obtain ⟨x, hx, rfl, rfl, htarget⟩ := (exists_mem_of_forall₂ hxs).1 _ (KeyMap.mem_of_get? hget)
  refine ⟨x.target, htarget, ?_⟩
  rw [Expansion.get?_foldl_of_mem (hkeys ▸ hspec.nodup) hx]
  cases hvalue : e.row.get? x.key with
  | none => exact .other nofun
  | some value =>
    cases value with
    | array vs =>
      refine .array (List.forall₂_map_right_iff.mpr (List.forall₂_same.mpr fun v hv => ?_))
      unfold Expansion.replace
      split
      next hnone => exact .kept hnone
      next id hid =>
        obtain ⟨d, hd, hfetch⟩ := hfound x hx vs hvalue v hv id hid
        obtain ⟨hrecord, hdecode⟩ := fetch_eq_ok hfetch
        rw [hd]
        exact .shown hid hrecord hdecode (renders_render _ _ _)
    | _ => exact .other nofun

/-- Where rows were expanded, each column asked for has a target, the rows are as asked for, and
what they refer to has been read. -/
theorem expand_eq_ok (hw : w.Identified) (hspec : spec.Sorted)
    (hexpand : expand t rows spec w = (.ok out, w')) :
    ∃ xs, List.Forall₂ (w.Targeted t) spec.entries xs ∧
      List.Forall₂ (Expanded w t spec) rows out ∧
      ∃ reads, Begun w reads w' ∧ reads.Perm (ofExpansions xs rows) := by
  obtain ⟨xs, w₁, hchecked, hrest⟩ := run_bind_eq_ok (show t.expand storeAt _ rows spec w = _ from
    hexpand)
  obtain ⟨hxs, rfl⟩ := Prod.mk.inj hchecked
  obtain ⟨results, w₂, hall, hrest⟩ := run_bind_eq_ok hrest
  obtain ⟨hrows, rfl⟩ := Prod.mk.inj hrest
  have htargeted := expansions_eq_ok hxs
  obtain ⟨-, hresolved, -⟩ := all_fetched w t.limits.readers (ofExpansions xs rows)
  rw [hall] at hresolved
  obtain ⟨hresolved, reads, hperm, hbegun⟩ := hresolved results rfl
  refine ⟨xs, htargeted, ?_, reads, hbegun, hperm⟩
  rw [← Except.ok.inj hrows]
  refine List.forall₂_map_right_iff.mpr (List.forall₂_same.mpr fun e he => ?_)
  refine foldl_expanded hspec htargeted fun x hx vs hvs v hv id hid => ?_
  obtain ⟨a, ha, hkey, -, htarget⟩ := (exists_mem_of_forall₂ htargeted).2 x hx
  have hjob : (⟨x.target, id⟩ : Reading) ∈ ofExpansions xs rows := (mem_jobs hw htargeted).mpr
    ⟨a.1, List.mem_map_of_mem ha, htarget, e, he, vs, hkey ▸ hvs, v, hv, hid⟩
  exact hresolved.found_of_mem (nodup_ofExpansions xs rows) hjob

/-- Rows are expanded as asked, reading each record that they refer to once. A column that cannot be
expanded is reported, the first in key order, before any record is read; otherwise only a read can
fail. -/
theorem expand_settles (hw : w.Reachable) (t : Table) (rows : List DecodedRecord)
    {spec : KeyMap Rendering} (hspec : spec.Sorted) :
    (∀ cause, spec.keys.findSome? (w.refusal? t) = some cause →
      expand t rows spec w = (.error cause, w)) ∧
    (∀ out w', expand t rows spec w = (.ok out, w') →
      List.Forall₂ (Expanded w t spec) rows out ∧
      ∃ reads, Begun w reads w' ∧ (reads.map key).Nodup ∧
        ∀ r, r ∈ reads ↔ Refers w t rows spec r) ∧
    (∀ cause w', expand t rows spec w = (.error cause, w') →
      spec.keys.findSome? (w.refusal? t) = none →
      ∃ r, Refers w t rows spec r ∧ fetch w r = .error cause) := by
  have hidentified := hw.identified
  have hexpand : expand t rows spec w = t.expand storeAt (w.target? t) rows spec w := rfl
  refine ⟨fun cause hcause => ?_, fun out w' hout => ?_, fun cause w' hout hnone => ?_⟩
  · rw [hexpand]
    unfold Table.expand
    rw [run_bind, run_checked, expansions_eq_error hcause]
  · obtain ⟨xs, htargeted, hrows, reads, hbegun, hperm⟩ := expand_eq_ok hidentified hspec hout
    have hdistinct := (hperm.map key).nodup_iff.mpr (nodup_ofExpansions xs rows)
    refine ⟨hrows, reads, hbegun, hdistinct, fun r => ?_⟩
    rw [hperm.mem_iff, mem_jobs hidentified htargeted]
  · rw [hexpand] at hout
    obtain ⟨xs, hxs⟩ := expansions_total hnone
    have hchecked : (checked (t.expansions (w.target? t) spec) : TableM Workspace _) w =
        (.ok xs, w) := by rw [run_checked, hxs]
    have hrest := (run_bind_ok hchecked _).symm.trans hout
    rcases run_bind_eq_error hrest with hall | ⟨results, w₁, -, hpure⟩
    · obtain ⟨-, -, hfailed⟩ := all_fetched w t.limits.readers (ofExpansions xs rows)
      rw [hall] at hfailed
      obtain ⟨r, hr, herror⟩ := hfailed cause rfl
      exact ⟨r, (mem_jobs hidentified (expansions_eq_ok hxs)).mp hr, herror⟩
    · exact nomatch (Prod.mk.inj hpure).1

/-- A table whose rows refer to rows of the same table. -/
def chapters : Table :=
  ⟨1, "Chapters", ⟨[("next", .ofType .relation "Next")]⟩, ⟨"new-col-1", "new-ds-1"⟩, "m", 0, {}⟩

/-- The table with its relation registered. -/
def chaptersRelated : Workspace :=
  (relate chapters "next" chapters
    (define "chapters" "Chapters" ⟨"m", {}, 0⟩ chapters.columns (.under "page")
      (empty.openContext "c" "m" {})).2).2

/-- A table may be defined and related to itself, and its store may hold anything then. -/
theorem reachable_related {context handle title key store : String} {limits : Limits} {c : Context}
    {columns : Columns} {binding : Binding}
    (ht : (define handle title c columns binding (empty.openContext context store limits)).2.Has t)
    (name : String) (m : Memory) :
    ((relate t key t (define handle title c columns binding
      (empty.openContext context store limits)).2).2.setMemory name m).Reachable := by
  have hopened : (empty.openContext context store limits).Reachable :=
    .single (.inl (.openContext context store limits))
  have hdefined := Relation.ReflTransGen.tail hopened
    (.inl (.define handle title c columns binding))
  exact (hdefined.tail (.inl (.relate key ht ht))).tail (.inr ⟨name, m, rfl⟩)

/-- A chapter without a next one. -/
def lastChapter : Record :=
  ⟨"a", false, some "2024-01-01T00:00:00.000Z", none, some "/chapters/a",
    ⟨[("Next", .ofFields [("relation", .array [])])]⟩⟩

def chaptersStored : Workspace :=
  chaptersRelated.setMemory "m"
    { chaptersRelated.memory "m" with records := [⟨"new-ds-1", lastChapter⟩] }

theorem reachable_chaptersStored : chaptersStored.Reachable :=
  reachable_related ⟨"chapters", rfl⟩ _ _

/-- A chapter with the last one after it, and something else. -/
def chapterRow : DecodedRecord :=
  ⟨⟨[("next", .array [.ofFields [("id", .string "a")], .null])]⟩,
    ⟨"b", false, none, none, none, .empty⟩⟩

/-- The last chapter as a whole, with its record. -/
def shownChapter : KeyMap Value :=
  ⟨[("data", .map ⟨[("next", .array [])]⟩),
    ("page", .map ⟨[("archived", .bool false), ("created_time", .string "2024-01-01T00:00:00.000Z"),
      ("id", .string "a"), ("last_edited_time", .null),
      ("properties", .map ⟨[("Next", .map ⟨[("relation", .array [])]⟩)]⟩),
      ("url", .string "/chapters/a")]⟩)]⟩

theorem expand_settles_chapter : ∃ e w' d,
    expand chapters [chapterRow] ⟨[("next", .whole)]⟩ chaptersStored = (.ok [e], w') ∧
      Expanded chaptersStored chapters ⟨[("next", .whole)]⟩ chapterRow e ∧
      e.row.get? "next" = some (.array [.map shownChapter, .null]) ∧
      d.record = lastChapter ∧ ShowsRow d shownChapter ∧
      ∃ reads, Begun chaptersStored reads w' ∧ ⟨chapters, "a"⟩ ∈ reads := by
  have hok : ∃ e w',
      expand chapters [chapterRow] ⟨[("next", .whole)]⟩ chaptersStored = (.ok [e], w') ∧
        e.row.get? "next" = some (.array [.map shownChapter, .null]) := ⟨_, _, rfl, rfl⟩
  obtain ⟨e, w', hexpand, hnext⟩ := hok
  have hspec : (⟨[("next", .whole)]⟩ : KeyMap Rendering).Sorted := List.pairwise_singleton _ _
  obtain ⟨-, hsettled, -⟩ := expand_settles reachable_chaptersStored chapters [chapterRow] hspec
  obtain ⟨hrows, reads, hbegun, -, hreads⟩ := hsettled [e] w' hexpand
  have hmem : ⟨chapters, "a"⟩ ∈ reads := (hreads _).mpr ⟨"next", List.mem_singleton.mpr rfl, rfl,
    chapterRow, List.mem_singleton.mpr rfl, _, rfl, _, List.mem_cons_self, rfl⟩
  have hexpanded := (List.forall₂_cons.mp hrows).1
  obtain ⟨target, htarget, hspelled⟩ := hexpanded.columns "next" .whole rfl
  obtain rfl : chapters = target := Option.some.inj htarget
  have hvalue : chapterRow.row.get? "next" =
      some (.array [.ofFields [("id", .string "a")], .null]) := rfl
  rw [hvalue] at hspelled
  obtain ⟨vs, hvs, hvalues⟩ := hspelled.exists_array
  obtain rfl := Value.array.inj (Option.some.inj (hvs.symm.trans hnext))
  obtain ⟨d, hrecord, -, hshows⟩ := (List.forall₂_cons.mp hvalues).1.whole rfl
  have hchapter : d.record = lastChapter := (Option.some.inj hrecord).symm
  exact ⟨e, w', d, hexpand, hexpanded, hnext, hchapter, hshows, reads, hbegun, hmem⟩

end Workspace
end DocTables
