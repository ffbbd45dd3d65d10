import DocTables.Proofs.Store.SameData

/-!
What changes of properties and moves to or from the archive do to the records of a store. A record
that is changed again and again is left as its last change leaves it, and records that are not
changed stay as they are. For this records must be told apart by their ids, which holds in every
store that calls can reach.
-/
namespace DocTables

section Reachable

/-- Reached from the empty store by calls and by what else can be done to a store in memory. -/
inductive Memory.Reachable : Memory → Prop
  | empty : Reachable .empty
  | seed {m : Memory} (h : Reachable m) (c : Collection) : Reachable (m.seed c)
  | call {m : Memory} (h : Reachable m) (c : Call) : Reachable (Memory.store.run c m).2
  | startRead {m : Memory} (h : Reachable m) (id : String) :
      Reachable (Memory.store.startRead id m).2
  | finishRead {m : Memory} (h : Reachable m) (id : String) :
      Reachable (Memory.store.finishRead id m).2
  | failWith {m : Memory} (h : Reachable m) (method : Method) (message : String) :
      Reachable (m.failWith method message)
  | clearFailures {m : Memory} (h : Reachable m) : Reachable m.clearFailures
  | clearCalls {m : Memory} (h : Reachable m) : Reachable m.clearCalls
  | setHidesMore {m : Memory} (h : Reachable m) (flag : Bool) : Reachable (m.setHidesMore flag)

namespace Memory
open Outcome
variable {m m' : Memory}

theorem Numbered.congr (h : m.Numbered) (hrecords : m'.records = m.records) : m'.Numbered := by
  unfold Numbered
  rw [hrecords]
  exact h

theorem Numbered.perform {α : Type} (h : m.Numbered) {call : Call}
    {act : Memory → Except StoreError (α × Memory)}
    (hact : ∀ a m', act (m.noted [call]) = .ok (a, m') → m'.Numbered) :
    (perform call act m).2.Numbered := holds_perform h hact

theorem Numbered.run (h : m.Numbered) (c : Call) : (store.run c m).2.Numbered := by
  cases c with
  | readSchema id =>
    refine (Effect.state_map _ _ _).symm ▸ h.congr ?_
    exact (SameData.readSchema m id).records
  | addCollection parent title ps =>
    refine (Effect.state_map _ _ _).symm ▸ h.perform fun ref m' href => ?_
    obtain ⟨-, rfl⟩ := Prod.mk.inj (Except.ok.inj href)
    exact h
  | extendSchema source ps =>
    refine (Effect.state_map _ _ _).symm ▸ h.perform fun _ m' hm' => ?_
    obtain ⟨c, -, heq⟩ := bind_eq_ok.mp hm'
    obtain ⟨-, rfl⟩ := Prod.mk.inj (Except.ok.inj heq)
    exact h
  | addRecord source ps =>
    refine (Effect.state_map _ _ _).symm ▸ h.perform fun r m' hm' => ?_
    obtain ⟨c, -, heq⟩ := addRecord_eq_ok.mp hm'
    obtain ⟨-, rfl⟩ := Prod.mk.inj heq
    exact Numbered.withRecord h rfl
  | readRecord id =>
    refine (Effect.state_map _ _ _).symm ▸ h.congr ?_
    unfold Store.readRecord
    rw [Effect.run_bind]
    have hstart := (SameData.startRead m id).records
    rcases hread : store.startRead id m with ⟨_ | _, m₁⟩ <;> rw [hread] at hstart
    · exact hstart
    · exact (SameData.finishRead m₁ id).records.trans hstart
  | changeRecord id change =>
    refine (Effect.state_map _ _ _).symm ▸ h.perform fun r m' hm' => ?_
    obtain ⟨s, c, -, -, -, heq⟩ := changeRecord_eq_ok hm'
    obtain ⟨-, rfl⟩ := Prod.mk.inj heq
    exact Numbered.withChanged h _
  | query source q =>
    refine (Effect.state_map _ _ _).symm ▸ h.congr ?_
    exact (SameData.query m source q).records

theorem Reachable.numbered (h : m.Reachable) : m.Numbered := by
  induction h with
  | empty => rfl
  | seed _ _ ih => exact ih
  | call _ c ih => exact ih.run c
  | startRead _ id ih => exact ih.congr (SameData.startRead _ id).records
  | finishRead _ id ih => exact ih.congr (SameData.finishRead _ id).records
  | failWith _ _ _ ih => exact ih
  | clearFailures _ ih => exact ih
  | clearCalls _ ih => exact ih
  | setHidesMore _ _ ih => exact ih

end Memory
end Reachable

section Edited
variable {schema ps : Properties} {now now' : String} {r r' r'' : Record}

/-- A record before and after properties of it are changed. The times of last edit that the schema
declares hold the time of the change, other changed properties what was sent with its type. -/
structure Edited (schema ps : Properties) (now : String) (r r' : Record) : Prop where
  id : r'.id = r.id
  archived : r'.archived = r.archived
  created : r'.created = r.created
  url : r'.url = r.url
  edited : r'.edited = some now
  stamped : ∀ name, Stamp.Renews schema name →
    r'.properties.get? name = some (Stamp.property .lastEditedTime (.string now))
  written : ∀ name, ¬ Stamp.Renews schema name → ∀ payload, ps.get? name = some payload →
    r'.properties.get? name = some (Stamp.tagged payload)
  kept : ∀ name, ¬ Stamp.Renews schema name → ps.get? name = none →
    r'.properties.get? name = r.properties.get? name

/-- Only the last change shows. -/
theorem Edited.trans (h : Edited schema ps now r r') (h' : Edited schema ps now' r' r'') :
    Edited schema ps now' r r'' := by
  refine ⟨h'.id.trans h.id, h'.archived.trans h.archived, h'.created.trans h.created,
    h'.url.trans h.url, h'.edited, h'.stamped, h'.written, fun name hs hp => ?_⟩
  exact (h'.kept name hs hp).trans (h.kept name hs hp)

theorem edited_changed (schema : Properties) (hps : ps.Sorted) (n : Nat) (r : Record) :
    Edited schema ps (Stamp.time n) r (Memory.changed schema n (.properties ps) r) := by
  have hget : ∀ name, (Memory.changed schema n (.properties ps) r).properties.get? name =
      (KeyMap.lookup name (Stamp.ofEdit schema (Stamp.time n)).entries.reverse).or
        (((ps.get? name).map Stamp.tagged).or (r.properties.get? name)) := by
    intro name
    simp only [Memory.changed, KeyMap.get?_union (m := r.properties.union _)]
    rw [(hps.map Stamp.tagged).get?_union, KeyMap.get?_map]
  have hunstamped : ∀ name, ¬ Stamp.Renews schema name →
      KeyMap.lookup name (Stamp.ofEdit schema (Stamp.time n)).entries.reverse = none := by
    intro name hname
    rw [KeyMap.lookup_eq_none, List.map_reverse, List.mem_reverse]
    intro hmem
    obtain ⟨e, he, rfl⟩ := List.mem_map.mp hmem
    exact hname (Stamp.mem_ofEdit.mp he).1
  refine ⟨rfl, rfl, rfl, rfl, rfl, ?_, ?_, ?_⟩
  · intro name hname
    have hmem : (name, _) ∈ (Stamp.ofEdit schema (Stamp.time n)).entries :=
      Stamp.mem_ofEdit.mpr ⟨hname, rfl⟩
    rw [hget, KeyMap.lookup_of_forall (a := Stamp.property .lastEditedTime (.string (Stamp.time n)))]
    · rfl
    · rw [List.map_reverse, List.mem_reverse]
      exact List.mem_map_of_mem hmem
    · exact fun e he => (Stamp.mem_ofEdit.mp (List.mem_reverse.mp he)).2
  · intro name hname payload hpayload
    rw [hget, hunstamped name hname, hpayload]
    rfl
  · intro name hname hnone
    rw [hget, hunstamped name hname, hnone]
    rfl

variable {change : Change}

/-- A record before and after a change. A move to or from the archive edits no property besides. -/
def Change.Leaves (change : Change) (schema : Properties) (now : String) (r r' : Record) : Prop :=
  match change with
  | .properties ps => Edited schema ps now r r'
  | .archived flag => Edited schema .empty now { r with archived := flag } r'

def Change.Sorted : Change → Prop
  | .properties ps => ps.Sorted
  | .archived _ => True

theorem Change.Leaves.id (h : change.Leaves schema now r r') : r'.id = r.id := by
  cases change with
  | properties ps => exact Edited.id h
  | archived flag =>
    have hedited : Edited schema .empty now { r with archived := flag } r' := h
    exact hedited.id

theorem Change.Leaves.archived {flag : Bool} (h : (Change.archived flag).Leaves schema now r r') :
    r'.archived = flag := by
  have hedited : Edited schema .empty now { r with archived := flag } r' := h
  exact hedited.archived

/-- Of a change that is made twice only the last time shows. -/
theorem Change.Leaves.trans (h : change.Leaves schema now r r')
    (h' : change.Leaves schema now' r' r'') : change.Leaves schema now' r r'' := by
  cases change with
  | properties ps => exact Edited.trans h h'
  | archived flag =>
    have hsame : { r' with archived := flag } = r' := by
      rw [← h.archived]
    exact Edited.trans h (hsame ▸ h')

theorem leaves_changed (schema : Properties) (hchange : change.Sorted) (n : Nat) (r : Record) :
    change.Leaves schema (Stamp.time n) r (Memory.changed schema n change r) := by
  cases change with
  | properties ps => exact edited_changed schema hchange n r
  | archived flag =>
    have hnone : (KeyMap.empty : Properties).Sorted := .nil
    exact edited_changed schema hnone n { r with archived := flag }

end Edited

namespace Memory
open Outcome
variable {m m₁ m' : Memory} {ps : Properties} {id : String} {ids : List String} {r : Record}

section Writing

/-- A record after one change made of all records with these ids. If it is among them, the last time
decides. -/
structure LeftAs (m : Memory) (change : Change) (ids : List String) (s s' : SourcedRecord) :
    Prop where
  source : s'.source = s.source
  kept : s.record.id ∉ ids → s' = s
  left : s.record.id ∈ ids → ∃ before after c, ids = before ++ s.record.id :: after ∧
    s.record.id ∉ after ∧ m.collectionOf s.source = .ok c ∧
    change.Leaves c.properties (Stamp.time (m.writes + before.length + 1)) s.record s'.record

/-- What one change leaves that is made of records in this order. -/
structure Went (change : Change) (ids : List String) (m m' : Memory) : Prop where
  collections : m'.collections = m.collections
  sources : m'.sources = m.sources
  failures : m'.failures = m.failures
  created : m'.created = m.created
  reading : m'.reading = m.reading
  mostReading : m'.mostReading = m.mostReading
  hidesMore : m'.hidesMore = m.hidesMore
  calls : m'.calls = m.calls ++ ids.map fun id => .changeRecord id change
  writes : m'.writes = m.writes + ids.length
  records : List.Forall₂ (LeftAs m change ids) m.records m'.records

theorem changeRecord_store_eq_ok {change : Change}
    (h : store.changeRecord id change m = (.ok r, m')) :
    ∃ s c, s ∈ m.records ∧ s.record.id = id ∧ m.collectionOf s.source = .ok c ∧
      r = changed c.properties (m.writes + 1) change s.record ∧
      m' = (m.noted [.changeRecord id change]).withChanged r := by
  obtain ⟨s, c, hs, hid, hc, heq⟩ :=
    changeRecord_eq_ok (of_perform _ (Memory.changeRecord id change) h)
  obtain ⟨rfl, rfl⟩ := Prod.mk.inj heq
  exact ⟨s, c, hs, hid, hc, rfl, rfl⟩

/-- A change that is refused is noted, and that is all. -/
theorem changeRecord_store_eq_error {change : Change} {e : StoreError}
    (h : store.changeRecord id change m = (.error e, m')) :
    m' = m.noted [.changeRecord id change] := by
  have hrefused := perform_refused (congrArg Prod.fst h)
  exact (congrArg Prod.snd h).symm.trans hrefused

theorem find?_setRecord (r : Record) (records : List SourcedRecord) (id : String) :
    ((setRecord r records).find? fun s => s.record.id = id) =
      (records.find? fun s => s.record.id = id).map fun s =>
        if s.record.id = r.id then { s with record := r } else s := by
  rw [setRecord, List.find?_map]
  congr 2
  funext s
  simp only [Function.comp_apply]
  split
  next h => rw [h]
  next => rfl

theorem record?_withChanged (m : Memory) (r : Record) (id : String) :
    (m.withChanged r).record? id =
      (m.record? id).map fun r' => if r'.id = r.id then r else r' := by
  have hfind : ((m.withChanged r).records.find? fun s => s.record.id = id) =
      (m.records.find? fun s => s.record.id = id).map fun s =>
        if s.record.id = r.id then { s with record := r } else s := find?_setRecord r m.records id
  rw [record?, record?, hfind, Option.map_map, Option.map_map]
  congr 1
  funext s
  simp only [Function.comp_apply]
  split <;> rfl

/-- The answer to a change is the record as it is then. -/
theorem record?_of_changeRecord {change : Change}
    (h : store.changeRecord id change m = (.ok r, m')) : m'.record? id = some r := by
  obtain ⟨s, c, hs, hid, -, hr, rfl⟩ := changeRecord_store_eq_ok h
  have hrid : r.id = id := by rw [hr, id_changed, hid]
  have hrecord : (m.noted [.changeRecord id change]).record? id = m.record? id := rfl
  rw [record?_withChanged, hrecord, record?]
  cases hfind : m.records.find? fun s => s.record.id = id with
  | none => exact absurd hid (by simpa using List.find?_eq_none.mp hfind s hs)
  | some s' =>
    have hid' : s'.record.id = id := by simpa using List.find?_some hfind
    simp [hid', hrid]

theorem Numbered.changeRecord {change : Change} (hm : m.Numbered)
    (h : store.changeRecord id change m = (.ok r, m')) : m'.Numbered := by
  obtain ⟨s, c, -, -, -, -, rfl⟩ := changeRecord_store_eq_ok h
  exact Numbered.withChanged hm _

/-- The store accepts one change of the records with these ids, one after the other. -/
inductive Accepted (change : Change) : Memory → List String → Memory → Prop
  | nil {m : Memory} : Accepted change m [] m
  | cons {m m₁ m' : Memory} {id : String} {ids : List String} {r : Record}
      (hcall : store.changeRecord id change m = (.ok r, m₁)) (hrest : Accepted change m₁ ids m') :
      Accepted change m (id :: ids) m'

section First
variable {change : Change} {s s' : SourcedRecord} (hwrites : m₁.writes = m.writes + 1)
  (hcollections : ∀ source, m₁.collectionOf source = m.collectionOf source)

include hwrites hcollections

/-- A record that the first change is not about. -/
theorem LeftAs.cons_of_ne (hne : s.record.id ≠ id) (h : LeftAs m₁ change ids s s') :
    LeftAs m change (id :: ids) s s' := by
  refine ⟨h.source, fun hnot => ?_, fun hmem => ?_⟩
  · exact h.kept fun hmem => hnot (List.mem_cons_of_mem _ hmem)
  · obtain ⟨before, after, c, hids, hafter, hc, hleft⟩ :=
      h.left ((List.mem_cons.mp hmem).resolve_left hne)
    refine ⟨id :: before, after, c, by rw [hids]; rfl, hafter, hcollections _ ▸ hc, ?_⟩
    have hnext : m.writes + (before.length + 1) + 1 = m₁.writes + before.length + 1 := by omega
    rw [List.length_cons, hnext]
    exact hleft

/-- The record that the first change is about. It shows only if no later change is about it. -/
theorem LeftAs.cons_self {c : Collection} (hid : s.record.id = id)
    (hc : m.collectionOf s.source = .ok c)
    (hfirst : change.Leaves c.properties (Stamp.time (m.writes + 1)) s.record r)
    (h : LeftAs m₁ change ids { s with record := r } s') : LeftAs m change (id :: ids) s s' := by
  have hrid : r.id = id := hfirst.id.trans hid
  refine ⟨h.source, fun hnot => absurd (List.mem_cons.mpr (.inl hid)) hnot, fun _ => ?_⟩
  by_cases hmem : id ∈ ids
  · obtain ⟨before, after, c', hids, hafter, hc', hleft⟩ := h.left (hrid ▸ hmem)
    obtain rfl : c' = c := Except.ok.inj (hc'.symm.trans ((hcollections _).trans hc))
    rw [hrid] at hids hafter
    refine ⟨id :: before, after, c', by rw [hids, hid]; rfl, hid ▸ hafter, hc, ?_⟩
    have hnext : m.writes + (before.length + 1) + 1 = m₁.writes + before.length + 1 := by omega
    rw [List.length_cons, hnext]
    exact hfirst.trans hleft
  · refine ⟨[], ids, c, by rw [hid]; rfl, hid ▸ hmem, hc, ?_⟩
    rw [h.kept (hrid ▸ hmem)]
    exact hfirst

end First

theorem Went.nil (change : Change) (m : Memory) : Went change [] m m := by
  refine ⟨rfl, rfl, rfl, rfl, rfl, rfl, rfl, (List.append_nil _).symm, rfl, ?_⟩
  exact List.forall₂_same.mpr fun s _ => ⟨rfl, fun _ => rfl, nofun⟩

/-- One time and then others. -/
theorem Went.cons {change : Change} (hm : m.Numbered) (hchange : change.Sorted)
    (h : store.changeRecord id change m = (.ok r, m₁)) (h' : Went change ids m₁ m') :
    Went change (id :: ids) m m' := by
  obtain ⟨s₀, c, hs₀, hid, hc, hr, rfl⟩ := changeRecord_store_eq_ok h
  have hfirst : change.Leaves c.properties (Stamp.time (m.writes + 1)) s₀.record r :=
    hr ▸ leaves_changed c.properties hchange (m.writes + 1) s₀.record
  have hrid : r.id = id := hfirst.id.trans hid
  refine ⟨h'.collections, h'.sources, h'.failures, h'.created, h'.reading, h'.mostReading,
    h'.hidesMore, ?_, ?_, ?_⟩
  · rw [h'.calls]
    exact List.append_assoc ..
  · rw [h'.writes, List.length_cons]
    show m.writes + 1 + ids.length = m.writes + (ids.length + 1)
    omega
  · have hwrites : ((m.noted [.changeRecord id change]).withChanged r).writes = m.writes + 1 := rfl
    have hstep : List.Forall₂ (fun s s₁ => s ∈ m.records ∧
        s₁ = if s.record.id = r.id then { s with record := r } else s) m.records
          ((m.noted [.changeRecord id change]).withChanged r).records :=
      List.forall₂_map_right_iff.mpr (List.forall₂_same.mpr fun s hs => ⟨hs, rfl⟩)
    refine forall₂_trans ?_ hstep h'.records
    rintro s s₁ s' ⟨hs, rfl⟩ hleft
    by_cases heq : s.record.id = r.id
    · rw [if_pos heq] at hleft
      -- Ids are distinct, so this is the record that the store found.
      obtain rfl : s = s₀ :=
        List.inj_on_of_nodup_map hm.nodup hs hs₀ (heq.trans (hrid.trans hid.symm))
      exact LeftAs.cons_self hwrites (fun _ => rfl) hid hc hfirst hleft
    · rw [if_neg heq] at hleft
      exact LeftAs.cons_of_ne hwrites (fun _ => rfl) (fun hne => heq (hne.trans hrid.symm)) hleft

/-- Changes that the store accepts touch the records that they are about and nothing else. -/
theorem Accepted.went {change : Change} (h : Accepted change m ids m') (hm : m.Numbered)
    (hchange : change.Sorted) : Went change ids m m' := by
  induction h with
  | nil => exact .nil change _
  | cons hcall _ ih => exact .cons hm hchange hcall (ih (hm.changeRecord hcall))

end Writing
end Memory
end DocTables
