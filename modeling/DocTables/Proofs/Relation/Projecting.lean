import DocTables.Proofs.Relation.Expanding

/-!
What projections show of a record. The id of the reference comes first, and the listed fields of the
record are laid over it. So a record shows the id that it was referred to by unless a field that is
itself called `id` is listed and the record has another value there.
-/
namespace DocTables
open Outcome Effect

namespace Rendering
variable {keys : List String} {row : Row} {id : String}

/-- What a projection shows as the id of a record. -/
def shownId (keys : List String) (row : Row) (id : String) : Value :=
  (if "id" ∈ keys then row.get? "id" else none).getD (.string id)

theorem shownId_eq_iff : shownId keys row id = .string id ↔
    ("id" ∈ keys → ∀ v, row.get? "id" = some v → v = .string id) := by
  unfold shownId
  split
  next hmem => cases row.get? "id" <;> simp [hmem]
  next hmem => simp [hmem]

theorem get?_id_of_renders {d : DecodedRecord} {v : Value} (h : Renders id d (.fields keys) v) :
    ∃ fields, v = .map fields ∧ fields.get? "id" = some (shownId keys d.row id) := by
  cases h with
  | fields _ h =>
    refine ⟨_, rfl, ?_⟩
    rw [h, if_pos rfl, Option.or_some]
    rfl

end Rendering

namespace Workspace
open Reading Rendering
variable {w w' : Workspace} {t target : Table} {rows out : List DecodedRecord}
  {spec : KeyMap Rendering} {key : String} {keys : List String} {e e' : DecodedRecord}

/-- The references that a row has under a key are replaced by elements as required. -/
def Rewrites (key : String) (r : String → Value → Prop) (e e' : DecodedRecord) : Prop :=
  ∀ vs, e.row.get? key = some (.array vs) → ∃ vs', e'.row.get? key = some (.array vs') ∧
    List.Forall₂ (fun v v' => ∀ id, v.reference? = some id → r id v') vs vs'

theorem Rewrites.imp {r r' : String → Value → Prop} (h : Rewrites key r e e')
    (hr : ∀ id v, r id v → r' id v) : Rewrites key r' e e' := by
  intro vs hvs
  obtain ⟨vs', hvs', hall⟩ := h vs hvs
  exact ⟨vs', hvs', hall.imp fun v v' hv id hid => hr id v' (hv id hid)⟩

/-- A map that shows the id of the record that it stands for. -/
def ShowsId (id : String) (v : Value) : Prop :=
  ∃ fields, v = .map fields ∧ fields.get? "id" = some (.string id)

theorem showsId_map {fields : KeyMap Value} {id : String} :
    ShowsId id (.map fields) ↔ fields.get? "id" = some (.string id) := by
  simp [ShowsId]

/-- What a reference with this id becomes when listed fields of its record are shown. -/
structure Projects (w : Workspace) (target : Table) (keys : List String) (id : String)
    (d : DecodedRecord) (v : Value) : Prop where
  record : (w.memory target.store).record? id = some d.record
  decoded : target.columns.decode d.record = .ok d
  exists_map : ∃ fields, v = .map fields ∧ fields.get? "id" = some (shownId keys d.row id)
  showsId_iff : ShowsId id v ↔ ("id" ∈ keys → ∀ u, d.row.get? "id" = some u → u = .string id)

theorem Projects.showsId {id : String} {d : DecodedRecord} {v : Value}
    (h : w.Projects target keys id d v)
    (hkeys : "id" ∉ keys ∨ target.columns.get? "id" = none) : ShowsId id v := by
  refine h.showsId_iff.mpr fun hmem u hu => ?_
  have hnone := hkeys.resolve_left (not_not_intro hmem)
  have hread := Columns.get?_readRow_eq_none (Columns.decode_eq_ok h.decoded).2 hnone
  exact nomatch hread.symm.trans hu

theorem Expanded.rewrites (h : Expanded w t spec e e') (hkeys : spec.get? key = some (.fields keys))
    (htarget : w.target? t key = some target) :
    Rewrites key (fun id v => ∃ d, w.Projects target keys id d v) e e' := by
  intro vs hvs
  obtain ⟨u, hu, hspelled⟩ := h.columns key _ hkeys
  obtain rfl := Option.some.inj (hu.symm.trans htarget)
  rw [hvs] at hspelled
  obtain ⟨vs', hvs', hvalues⟩ := hspelled.exists_array
  refine ⟨vs', hvs', hvalues.imp fun v v' hreplaced id hid => ?_⟩
  cases hreplaced with
  | kept hnone => exact nomatch hnone.symm.trans hid
  | @shown _ _ d hid' hrecord hdecode hshown =>
    obtain rfl := Option.some.inj (hid'.symm.trans hid)
    obtain ⟨fields, rfl, hget⟩ := get?_id_of_renders hshown
    refine ⟨d, hrecord, hdecode, ⟨fields, rfl, hget⟩, ?_⟩
    rw [showsId_map, hget, Option.some.injEq, shownId_eq_iff]

/-- When a column is expanded to some fields of its target, each reference becomes a map. It shows
the id of the reference unless `id` is listed and the record has another value under that key. So
the id is lost for no list without `id` and for no target without such a column. -/
theorem expand_projects (hw : w.Reachable) (hspec : spec.Sorted)
    (hexpand : expand t rows spec w = (.ok out, w'))
    (hkeys : spec.get? key = some (.fields keys)) :
    ∃ target, w.target? t key = some target ∧
      List.Forall₂ (Rewrites key fun id v => ∃ d, w.Projects target keys id d v) rows out ∧
      ("id" ∉ keys ∨ target.columns.get? "id" = none →
        List.Forall₂ (Rewrites key ShowsId) rows out) := by
  obtain ⟨xs, htargeted, hrows, -⟩ := expand_eq_ok hw.identified hspec hexpand
  obtain ⟨x, -, -, -, htarget⟩ := (exists_mem_of_forall₂ htargeted).1 _ (KeyMap.mem_of_get? hkeys)
  have hprojects := hrows.imp fun _ _ h => h.rewrites hkeys htarget
  refine ⟨x.target, htarget, hprojects, fun hid => hprojects.imp fun _ _ h => h.imp ?_⟩
  rintro id v ⟨d, hd⟩
  exact hd.showsId hid

/-- A table of parts, each of which may be within others. Its numbers are under the key `id`. -/
def parts : Table :=
  ⟨1, "Parts", ⟨[("id", .ofType .title "Number"), ("within", .ofType .relation "Within")]⟩,
    ⟨"new-col-1", "new-ds-1"⟩, "m", 0, {}⟩

def partsRelated : Workspace :=
  (relate parts "within" parts
    (define "parts" "Parts" ⟨"m", {}, 0⟩ parts.columns (.under "page")
      (empty.openContext "c" "m" {})).2).2

/-- One part is there, with the number A-7. -/
def partsStored : Workspace :=
  partsRelated.setMemory "m" { partsRelated.memory "m" with
    records := [⟨"new-ds-1", "a", false, none, none, none, ⟨[("Number", .ofFields [("title",
      .array [.ofFields [("plain_text", .string "A-7")]])])]⟩⟩] }

/-- A part within the one that is there. -/
def partRow : DecodedRecord :=
  ⟨⟨[("within", .array [.ofFields [("id", .string "a")]])]⟩, ⟨"b", false, none, none, none, .empty⟩⟩

def partNumbers : KeyMap Rendering := ⟨[("within", .fields ["id"])]⟩

theorem reachable_partsStored : partsStored.Reachable := reachable_related ⟨"parts", rfl⟩ _ _

theorem sorted_partNumbers : partNumbers.Sorted := List.pairwise_singleton _ _

theorem expand_partRow : ∃ e w', expand parts [partRow] partNumbers partsStored = (.ok [e], w') ∧
    e.row.get? "within" = some (.array [.ofFields [("id", .string "A-7")]]) :=
  ⟨_, _, rfl, rfl⟩

/-- What the only reference of the part becomes. -/
theorem Rewrites.part {r : String → Value → Prop} {u : Value}
    (h : Rewrites "within" r partRow e) (hu : e.row.get? "within" = some (.array [u])) :
    r "a" u := by
  obtain ⟨us, hus, hrefers⟩ := h _ rfl
  obtain rfl := Value.array.inj (Option.some.inj (hus.symm.trans hu))
  exact (List.forall₂_cons.mp hrefers).1 "a" rfl

/-- The part is shown under its number, not under the id of its record. -/
theorem expand_projects_parts : ∃ e w' d,
    expand parts [partRow] partNumbers partsStored = (.ok [e], w') ∧
    e.row.get? "within" = some (.array [.ofFields [("id", .string "A-7")]]) ∧
    partsStored.Projects parts ["id"] "a" d (.ofFields [("id", .string "A-7")]) := by
  obtain ⟨e, w', hexpand, hwithin⟩ := expand_partRow
  have hkeys : partNumbers.get? "within" = some (.fields ["id"]) := rfl
  obtain ⟨target, htarget, hrows, -⟩ :=
    expand_projects reachable_partsStored sorted_partNumbers hexpand hkeys
  obtain rfl : parts = target := Option.some.inj htarget
  obtain ⟨d, hd⟩ := (List.forall₂_cons.mp hrows).1.part hwithin
  exact ⟨e, w', d, hexpand, hwithin, hd⟩

/-- Not every reference is replaced by a map that shows its id. -/
theorem not_forall_expand_showsId : ¬ ∀ w t rows spec out w' key keys, w.Reachable → spec.Sorted →
    expand t rows spec w = (.ok out, w') → spec.get? key = some (.fields keys) →
    List.Forall₂ (Rewrites key ShowsId) rows out := by
  intro h
  obtain ⟨e, w', hexpand, hwithin⟩ := expand_partRow
  have hrows := h _ _ _ _ _ _ "within" ["id"] reachable_partsStored sorted_partNumbers hexpand rfl
  have hshown := (List.forall₂_cons.mp hrows).1.part hwithin
  have hid := showsId_map.mp hshown
  exact absurd (Value.string.inj (Option.some.inj hid)) (by decide)

end Workspace
end DocTables
