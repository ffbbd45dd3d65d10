import DocTables.Proofs.Column.Payloads
import DocTables.Proofs.Table.Insertion
import DocTables.Proofs.Table.Successive

/-!
Two clients that update one record at the same time. When they send values under different keys no
update is lost, and the record does not show in which order they came.
-/
namespace DocTables
open Outcome

/-- The requests of two clients, each in the order of its client. -/
inductive Interleaves {α : Type u} : List α → List α → List α → Prop
  | nil : Interleaves [] [] []
  | left {as bs l : List α} (a : α) (h : Interleaves as bs l) : Interleaves (a :: as) bs (a :: l)
  | right {as bs l : List α} (b : α) (h : Interleaves as bs l) : Interleaves as (b :: bs) (b :: l)

namespace Interleaves
variable {α : Type u} {β : Type v} {as bs l : List α}

theorem symm (h : Interleaves as bs l) : Interleaves bs as l := by
  induction h with
  | nil => exact .nil
  | left a _ ih => exact ih.right a
  | right b _ ih => exact ih.left b

theorem perm (h : Interleaves as bs l) : l.Perm (as ++ bs) := by
  induction h with
  | nil => exact .nil
  | left a _ ih => exact ih.cons a
  | right b _ ih => exact (ih.cons b).trans List.perm_middle.symm

/-- What only one client sends comes in the order of this client. -/
theorem filterMap_eq (h : Interleaves as bs l) {f : α → Option β} (hbs : ∀ b ∈ bs, f b = none) :
    l.filterMap f = as.filterMap f := by
  induction h with
  | nil => rfl
  | left a _ ih => rw [List.filterMap_cons, List.filterMap_cons, ih hbs]
  | right b _ ih =>
    obtain ⟨hb, hbs⟩ := List.forall_mem_cons.mp hbs
    rw [List.filterMap_cons, hb, ih hbs]

end Interleaves

namespace Edit
variable {as bs l l' : List Edit} {key : String} {v : Value}

/-- The values that updates send under a key. -/
def values (key : String) (es : List Edit) : List Value := es.filterMap (·.row.get? key)

/-- The updates send values under different keys. -/
def Apart (as bs : List Edit) : Prop :=
  ∀ a ∈ as, ∀ b ∈ bs, ∀ key, a.row.get? key = none ∨ b.row.get? key = none

theorem Apart.symm (h : Apart as bs) : Apart bs as := fun b hb a ha key => (h a ha b hb key).symm

theorem Apart.none_or_none (h : Apart as bs) (key : String) :
    (∀ a ∈ as, a.row.get? key = none) ∨ ∀ b ∈ bs, b.row.get? key = none := by
  by_cases has : ∀ a ∈ as, a.row.get? key = none
  · exact .inl has
  · obtain ⟨a, ha, hsome⟩ : ∃ a ∈ as, a.row.get? key ≠ none := by simpa using has
    exact .inr fun b hb => (h a ha b hb key).resolve_left hsome

/-- Under every key the values come in the same order. -/
theorem Apart.values_eq (h : Apart as bs) (hl : Interleaves as bs l) (hl' : Interleaves as bs l')
    (key : String) : values key l = values key l' := by
  rcases h.none_or_none key with has | hbs
  · exact (hl.symm.filterMap_eq has).trans (hl'.symm.filterMap_eq has).symm
  · exact (hl.filterMap_eq hbs).trans (hl'.filterMap_eq hbs).symm

/-- The last value that a client sends under a key is the last one that comes. -/
theorem Apart.getLast?_values (h : Apart as bs) (hl : Interleaves as bs l)
    (hv : (values key as).getLast? = some v) : (values key l).getLast? = some v := by
  rcases h.none_or_none key with has | hbs
  · obtain ⟨a, ha, hsome⟩ := List.mem_filterMap.mp (List.mem_of_getLast? hv)
    exact nomatch (has a ha).symm.trans hsome
  · rwa [values, hl.filterMap_eq hbs]

end Edit

namespace Columns
variable {columns : Columns} {row : Row} {ps : Properties} {key name : String} {c : Column}
  {es es' : List Edit} {changes changes' : List Properties} {v : Value} {r r' : Record}

/-- A property is only sent for a key whose column stands for it. -/
theorem exists_key_of_sent (h : columns.updateProperties row = .ok ps) (hrow : row.Sorted)
    {j : Json} (hj : ps.get? name = some j) :
    ∃ key c, columns.get? key = some c ∧ c.name = name ∧ row.get? key ≠ none := by
  obtain ⟨cells, hcells, rfl, -⟩ := patchCells_of_ok h
  obtain ⟨x, hx, hname, -⟩ :=
    (exists_mem_of_forall₂ hcells).2 _ (KeyMap.mem_ofList (KeyMap.mem_of_get? hj))
  obtain ⟨hmem, hc⟩ := mem_patchCells.mp hx
  refine ⟨x.key, x.column, hc, hname.symm, ?_⟩
  rw [hrow.get?_of_mem hmem]
  exact Option.some_ne_none _

/-- With distinct names a property is sent when there is a value under its key. -/
theorem sent_under (h : columns.updateProperties row = .ok ps) (hnames : columns.NamesDistinct)
    (hrow : row.Sorted) (hc : columns.get? key = some c) :
    (ps.get? c.name).map .ok = (row.get? key).map (payload key c) := by
  cases hv : row.get? key with
  | some v =>
    obtain ⟨c', j, hc', hj, hsent⟩ := get?_updateProperties h hnames hrow hv
    obtain rfl := Option.some.inj (hc.symm.trans hc')
    rw [hsent, Option.map_some, Option.map_some, hj]
  | none =>
    cases hsent : ps.get? c.name with
    | none => rfl
    | some j =>
      obtain ⟨key', c', hc', hname, hvalue⟩ := exists_key_of_sent h hrow hsent
      obtain rfl := key_eq_of_name_eq hnames hc' hc hname
      exact absurd hv hvalue

/-- What accepted updates send for one property are the payloads of the values under its key. -/
theorem changes_under (h : columns.Sends es changes) (hnames : columns.NamesDistinct)
    (hrows : ∀ e ∈ es, e.row.Sorted) (hc : columns.get? key = some c) :
    (changes.filterMap (·.get? c.name)).map .ok = (Edit.values key es).map (payload key c) := by
  induction h with
  | nil => rfl
  | @cons e ps es changes hps _ ih =>
    obtain ⟨hrow, hrows⟩ := List.forall_mem_cons.mp hrows
    have hsent := sent_under hps hnames hrow hc
    have hrest := ih hrows
    unfold Edit.values at hrest ⊢
    simp only [List.filterMap_cons]
    cases hv : e.row.get? key with
    | none =>
      rw [hv, Option.map_none, Option.map_eq_none_iff] at hsent
      simpa only [hsent] using hrest
    | some v =>
      rw [hv, Option.map_some] at hsent
      obtain ⟨j, hj, hpayload⟩ := Option.map_eq_some_iff.mp hsent
      simp only [hj, List.map_cons, hpayload, hrest]

/-- No property is sent that no column stands for. -/
theorem changes_eq_nil (h : columns.Sends es changes) (hrows : ∀ e ∈ es, e.row.Sorted)
    (hname : ∀ key c, columns.get? key = some c → c.name ≠ name) :
    changes.filterMap (·.get? name) = [] := by
  refine List.filterMap_eq_nil_iff.mpr fun ps hps => ?_
  obtain ⟨e, he, hsent⟩ := (exists_mem_of_forall₂ h).2 ps hps
  cases hj : ps.get? name with
  | none => rfl
  | some j =>
    obtain ⟨key, c, hc, heq, -⟩ := exists_key_of_sent hsent (hrows e he) hj
    exact absurd heq (hname key c hc)

/-- The values under all keys determine what is sent for each property. -/
theorem changes_eq (h : columns.Sends es changes) (h' : columns.Sends es' changes')
    (hnames : columns.NamesDistinct) (hrows : ∀ e ∈ es, e.row.Sorted)
    (hrows' : ∀ e ∈ es', e.row.Sorted)
    (hvalues : ∀ key, Edit.values key es = Edit.values key es') (name : String) :
    changes.filterMap (·.get? name) = changes'.filterMap (·.get? name) := by
  by_cases hcolumn : ∃ key c, columns.get? key = some c ∧ c.name = name
  · obtain ⟨key, c, hc, rfl⟩ := hcolumn
    have hsent := changes_under h hnames hrows hc
    rw [hvalues, ← changes_under h' hnames hrows' hc] at hsent
    exact List.map_injective_iff.mpr (fun _ _ => Except.ok.inj) hsent
  · have hname : ∀ key c, columns.get? key = some c → c.name ≠ name :=
      fun key c hc heq => hcolumn ⟨key, c, hc, heq⟩
    rw [changes_eq_nil h hrows hname, changes_eq_nil h' hrows' hname]

/-- The record is read back with the canonical form of the value under this key. -/
def ReadsBack (columns : Columns) (r : Record) (key : String) (v : Value) : Prop :=
  ∃ c j u d, columns.get? key = some c ∧ payload key c v = .ok j ∧ c.codec.ofWire j = .ok u ∧
    columns.decode r = .ok d ∧ d.row.get? key = some u

/-- The last value that is sent under a key is read back. -/
theorem readsBack_amended {schema : Properties} {now : String}
    (h : columns.Sends es changes) (hamended : Amended schema changes now r r')
    (hsorted : columns.Sorted) (hnames : columns.NamesDistinct) (hs : schema.Sorted)
    (hdeclared : columns.Declared schema) (hrows : ∀ e ∈ es, e.row.Sorted)
    (hdecodes : ∃ d, columns.decode r' = .ok d)
    (hv : (Edit.values key es).getLast? = some v) : columns.ReadsBack r' key v := by
  obtain ⟨e, he, hvalue⟩ := List.mem_filterMap.mp (List.mem_of_getLast? hv)
  obtain ⟨ps, -, hps⟩ := (exists_mem_of_forall₂ h).1 e he
  obtain ⟨c, j, hc, hj, -⟩ := get?_updateProperties hps hnames (hrows e he) hvalue
  have hlast : (changes.filterMap (·.get? c.name)).getLast? = some j := by
    have hsent := congrArg List.getLast? (changes_under h hnames hrows hc)
    rw [List.getLast?_map, List.getLast?_map, hv, Option.map_some, hj] at hsent
    obtain ⟨j', hj', heq⟩ := Option.map_eq_some_iff.mp hsent
    rw [hj', Except.ok.inj heq]
  -- The store does not write this property, or its column would be a maintained one.
  have hkept : ¬ Stamp.Renews schema c.name := by
    intro hrenews
    have htype := type_of_renews hs (hdeclared (key, c) (KeyMap.mem_of_get? hc)) hrenews
    have hmaintained : c.isMaintained = true := by
      rw [Column.isMaintained, htype]
      rfl
    exact nomatch hmaintained.symm.trans (payload_eq_ok hj).1
  have hproperty : r'.properties.get? c.name = some (Stamp.tagged j) := by
    rw [hamended.sent _ hkept, hlast]
    rfl
  obtain ⟨d, hd⟩ := hdecodes
  obtain ⟨o, ho, hread⟩ := get?_readRow (decode_eq_ok hd).2 hsorted hc
  obtain ⟨u, hu, rfl⟩ := decodeField_of_some hproperty ho
  rw [ofWire_payload hj] at hu
  exact ⟨c, j, u, d, hc, hj, hu, hd, hread⟩

end Columns

namespace Workspace
open Effect
variable {t : Table} {w w' w'' : Workspace} {columns : Columns} {as bs : List Edit}

section Outcomes
variable {id : String} {c : Collection} {r : Record} {es es' : List Edit}
  {outs outs' : List Updated}

/-- After updates that succeed, the last value sent under each key is read back. -/
theorem Finds.readsBack (h : w.Finds t id c r) (hs : c.properties.Sorted)
    (hdeclared : t.columns.Declared c.properties) (hsorted : t.columns.Sorted)
    (hnames : t.columns.NamesDistinct) (hof : ∀ e ∈ es, e.Of id) (hrows : ∀ e ∈ es, e.row.Sorted)
    (hrun : t.updates es w = (.ok outs, w')) :
    ∃ r', (w'.memory t.store).record? id = some r' ∧
      ∀ key v, (Edit.values key es).getLast? = some v → t.columns.ReadsBack r' key v := by
  obtain ⟨changes, r', hchanges, hamended, hdecodes, hfinds⟩ := h.updates_ok hof hrun
  refine ⟨r', hfinds.record?, fun key v hv => ?_⟩
  have hsome : es ≠ [] := by
    rintro rfl
    exact nomatch hv
  exact Columns.readsBack_amended hchanges hamended hsorted hnames hs hdeclared hrows
    (hdecodes hsome) hv

/-- Updates that send the same values under each key make the same record. -/
theorem Finds.record?_eq (h : w.Finds t id c r) (hr : r.properties.Sorted)
    (hnames : t.columns.NamesDistinct) (hof : ∀ e ∈ es, e.Of id) (hof' : ∀ e ∈ es', e.Of id)
    (hrows : ∀ e ∈ es, e.row.Sorted) (hrows' : ∀ e ∈ es', e.row.Sorted)
    (hlength : es.length = es'.length)
    (hvalues : ∀ key, Edit.values key es = Edit.values key es')
    (hrun : t.updates es w = (.ok outs, w')) (hrun' : t.updates es' w = (.ok outs', w'')) :
    (w'.memory t.store).record? id = (w''.memory t.store).record? id := by
  obtain ⟨changes, r', hchanges, hamended, -, hfinds⟩ := h.updates_ok hof hrun
  obtain ⟨changes', r'', hchanges', hamended', -, hfinds'⟩ := h.updates_ok hof' hrun'
  have hcount : changes.length = changes'.length := by
    rw [← hchanges.length_eq, hlength, hchanges'.length_eq]
  have hnil : changes = [] ↔ changes' = [] := by
    rw [← List.length_eq_zero_iff, hcount, List.length_eq_zero_iff]
  rw [hlength] at hamended
  have heq : r' = r'' := hamended.eq hamended' hr hnil
    (Columns.changes_eq hchanges hchanges' hnames hrows hrows' hvalues)
  rw [hfinds.record?, hfinds'.record?, heq]

end Outcomes

/-- Updates of one record by two clients, with values under different keys. However they interleave,
the last value that a client sends under a key is read back. The record comes out the same in every
order, and all orders succeed when the store works and the updates are accepted. -/
theorem interleaved_settles {w₀ w₁ w₂ w₃ : Workspace} {handle title parent : String}
    {context : Context} {s : SourcedRecord} (hinitial : w₀.Initial) (hbefore : Reaches w₀ w₁)
    (hsorted : columns.Sorted) (hnames : columns.NamesDistinct)
    (hdefine : define handle title context columns (.under parent) w₁ = (.ok t, w₂))
    (hafter : Reaches w₂ w₃) (hreach : (w.memory t.store).Reachable)
    (hschema : (w.memory t.store).collectionOf t.collection.source =
      (w₃.memory t.store).collectionOf t.collection.source)
    (hs : s ∈ (w.memory t.store).records) (hsource : s.source = t.collection.source)
    (hproperties : s.record.properties.Sorted)
    (hof : ∀ e ∈ as ++ bs, e.Of s.record.id) (hrows : ∀ e ∈ as ++ bs, e.row.Sorted)
    (hapart : Edit.Apart as bs) :
    (∀ l outs w', Interleaves as bs l → t.updates l w = (.ok outs, w') →
      ∃ r, (w'.memory t.store).record? s.record.id = some r ∧
        ∀ key v, (Edit.values key as).getLast? = some v ∨
          (Edit.values key bs).getLast? = some v → columns.ReadsBack r key v) ∧
    (∀ l l' outs outs' w' w'', Interleaves as bs l → Interleaves as bs l' →
      t.updates l w = (.ok outs, w') → t.updates l' w = (.ok outs', w'') →
        (w'.memory t.store).record? s.record.id = (w''.memory t.store).record? s.record.id) ∧
    ((∀ e ∈ as ++ bs, ∃ ps, columns.updateProperties e.row = .ok ps) →
      (w.memory t.store).failure? .changeRecord = none →
      (∃ d, columns.decode s.record = .ok d) →
        ∀ l, Interleaves as bs l → ∃ outs w', t.updates l w = (.ok outs, w')) := by
  obtain ⟨hmade, rfl⟩ := (hinitial.sound.reaches hbefore).define_under hnames hdefine
  have ht : False ∨ t = t := .inr rfl
  -- The schema is one that operations lead to, so it still declares the columns.
  obtain ⟨c, hc, hsortedSchema, hdeclared, -⟩ := (hmade.reaches hafter).table ht
  rw [← hschema, ← hsource] at hc
  have hfinds : w.Finds t s.record.id c s.record := by
    have hfound := hreach.numbered.finds hs hc
    rwa [hsource] at hfound
  have hall : ∀ {P : Edit → Prop} {l}, (∀ e ∈ as ++ bs, P e) → Interleaves as bs l →
      ∀ e ∈ l, P e := fun hP hl e he => hP e (hl.perm.mem_iff.mp he)
  refine ⟨fun l outs w' hl hrun => ?_, fun l l' outs outs' w' w'' hl hl' hrun hrun' => ?_,
    fun haccepted hworks hdecodes l hl => ?_⟩
  · obtain ⟨r, hr, hread⟩ := hfinds.readsBack hsortedSchema hdeclared hsorted hnames
      (hall hof hl) (hall hrows hl) hrun
    refine ⟨r, hr, fun key v hv => hread key v ?_⟩
    rcases hv with hv | hv
    · exact hapart.getLast?_values hl hv
    · exact hapart.symm.getLast?_values hl.symm hv
  · have hlength : l.length = l'.length := (hl.perm.trans hl'.perm.symm).length_eq
    exact hfinds.record?_eq hproperties hnames (hall hof hl) (hall hof hl') (hall hrows hl)
      (hall hrows hl') hlength (hapart.values_eq hl hl') hrun hrun'
  · exact hfinds.run_updates (hall hof hl) (hall haccepted hl) hworks hsortedSchema hdeclared
      hdecodes

/-- A table of awards with one record. -/
def awardTable : Table := ⟨1, "Awards", Columns.awards, ⟨"new-col-1", "new-ds-1"⟩, "m", 0, {}⟩

def awardsDefined : Workspace :=
  (define "awards" "Awards" ⟨"m", {}, 0⟩ Columns.awards (.under "page") empty).2

def awardsInserted : Workspace :=
  (awardTable.insert storeAt ⟨[("points", .int 1), ("who", .string "Bob")]⟩ awardsDefined).2

/-- An update of this record. -/
def awardEdit (key : String) (v : Value) : Edit :=
  ⟨⟨[(key, v)]⟩, { targets := { records := some ["rec-1"] } }⟩

theorem apart_awardEdits (v v' v'' : Value) :
    Edit.Apart [awardEdit "points" v, awardEdit "points" v'] [awardEdit "who" v''] := by
  intro a ha b hb key
  obtain rfl := List.mem_singleton.mp hb
  by_cases hkey : key = "who"
  · have hpoints : "points" ≠ key := by
      rw [hkey]
      decide
    have hnone : ∀ v, (awardEdit "points" v).row.get? key = none := fun v => if_neg hpoints
    rcases List.mem_pair.mp ha with rfl | rfl
    · exact .inl (hnone v)
    · exact .inl (hnone v')
  · exact .inr (if_neg (Ne.symm hkey))

/-- One client changes the points twice, and another one the name in between. -/
theorem interleaved_settles_awards :
    ∃ outs w' r, awardTable.updates [awardEdit "points" (.int 2), awardEdit "who" (.string " Ada "),
        awardEdit "points" (.int 3)] awardsInserted = (.ok outs, w') ∧
      (w'.memory "m").record? "rec-1" = some r ∧ Columns.awards.ReadsBack r "points" (.int 3) ∧
      Columns.awards.ReadsBack r "who" (.string " Ada ") := by
  have hsorted : Columns.awards.Sorted := List.pairwise_pair.mpr (by decide)
  have hnames : Columns.awards.NamesDistinct := by
    unfold Columns.NamesDistinct
    decide
  have hdefine : define "awards" "Awards" ⟨"m", {}, 0⟩ Columns.awards (.under "page") empty =
      (.ok awardTable, awardsDefined) := rfl
  obtain ⟨ps, hmemory⟩ : ∃ ps, awardsInserted.memory awardTable.store =
      (Memory.store.run (.addRecord "new-ds-1" ps)
        (Memory.store.run (.addCollection "page" "Awards" Columns.awards.schema) .empty).2).2 :=
    ⟨_, rfl⟩
  have hreach : (awardsInserted.memory awardTable.store).Reachable := by
    rw [hmemory]
    exact .call (.call .empty _) _
  obtain ⟨s, hrecords, hid, hsource, hproperties, hdecodes⟩ :
      ∃ s, (awardsInserted.memory awardTable.store).records = [s] ∧ s.record.id = "rec-1" ∧
        s.source = awardTable.collection.source ∧ s.record.properties.Sorted ∧
          ∃ d, Columns.awards.decode s.record = .ok d :=
    ⟨_, rfl, rfl, rfl, List.pairwise_pair.mpr (by decide), _, rfl⟩
  have hs : s ∈ (awardsInserted.memory awardTable.store).records := by
    rw [hrecords]
    exact List.mem_singleton_self s
  have hof : ∀ key v, (awardEdit key v).Of s.record.id := by
    intro key v
    rw [hid]
    rfl
  have hrows : ∀ key v, (awardEdit key v).row.Sorted := fun _ _ => List.pairwise_singleton _ _
  obtain ⟨hread, -, hsucceeds⟩ := interleaved_settles initial_empty .refl hsorted hnames hdefine
    .refl hreach rfl hs hsource hproperties (by simp [hof]) (by simp [hrows])
    (apart_awardEdits (.int 2) (.int 3) (.string " Ada "))
  have haccepted : ∀ e ∈ [awardEdit "points" (.int 2), awardEdit "points" (.int 3),
      awardEdit "who" (.string " Ada ")], ∃ ps, Columns.awards.updateProperties e.row = .ok ps := by
    simp only [List.forall_mem_cons]
    exact ⟨⟨_, rfl⟩, ⟨_, rfl⟩, ⟨_, rfl⟩, nofun⟩
  have hl := ((Interleaves.nil.left (awardEdit "points" (.int 3))).right
    (awardEdit "who" (.string " Ada "))).left (awardEdit "points" (.int 2))
  obtain ⟨outs, w', hrun⟩ := hsucceeds haccepted rfl hdecodes _ hl
  obtain ⟨r, hr, hvalues⟩ := hread _ _ _ hl hrun
  rw [hid] at hr
  exact ⟨outs, w', r, hrun, hr, hvalues _ _ (.inl rfl), hvalues _ _ (.inr rfl)⟩

end Workspace
end DocTables
