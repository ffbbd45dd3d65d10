import DocTables.Proofs.Relation.History
import Mathlib.Data.List.Dedup
import Mathlib.Data.List.Perm.Subperm

/-!
How many sources relations count, when tables may also be registered in the relations of other
contexts. A source is counted from its first registration on, and only the relations that it was
defined with forget it.
-/
namespace DocTables

namespace Relations
variable {r : Relations} {live : Table → Bool} {source i : Nat} {key : String} {target : Table}

/-- The sources that have entries. -/
def sources (r : Relations) : List Nat := r.entries.map Prod.fst

theorem size_eq (r : Relations) : r.size = r.sources.length := (List.length_map _).symm

theorem isEmpty_iff : r.isEmpty = true ↔ r.sources = [] := by
  rw [isEmpty, List.isEmpty_iff, sources, List.map_eq_nil_iff]

theorem sources_eraseSource :
    (r.eraseSource source).sources = r.sources.filter (fun j => j ≠ source) := by
  rw [sources, sources, List.filter_map]
  rfl

theorem sources_insert :
    (r.insert live source key target).sources =
      source :: r.sources.filter (fun j => j ≠ source) := by
  rw [← sources_eraseSource]
  rfl

theorem mem_sources_eraseSource :
    i ∈ (r.eraseSource source).sources ↔ i ∈ r.sources ∧ i ≠ source := by
  simp [sources_eraseSource]

theorem mem_sources_insert :
    i ∈ (r.insert live source key target).sources ↔ i = source ∨ i ∈ r.sources := by
  by_cases hi : i = source <;> simp [sources_insert, hi]

theorem nodup_eraseSource (h : r.sources.Nodup) : (r.eraseSource source).sources.Nodup := by
  rw [sources_eraseSource]
  exact h.filter _

theorem nodup_insert (h : r.sources.Nodup) :
    (r.insert live source key target).sources.Nodup := by
  rw [sources_insert]
  exact (h.filter _).cons (by simp)

/-- Only sources with entries show targets. -/
theorem mem_sources_of_ofSource (h : r.ofSource live source ≠ []) : source ∈ r.sources := by
  by_contra hnone
  have hlookup : r.entries.lookup source = none := by
    rw [List.lookup_eq_none_iff]
    intro e he
    exact bne_iff_ne.mpr fun heq => hnone (heq ▸ List.mem_map_of_mem he)
  exact h (by rw [ofSource, targets, hlookup]; rfl)

end Relations

namespace Workspace
open Effect
variable {w w' : Workspace} {s t source target : Table} {key : String} {n : Nat}
  {log : List (Nat × Table)}

theorem hasHandle_iff_has (hs : w.handles.Sorted) :
    w.hasHandle t = true ↔ ∃ u, w.Has u ∧ u.id = t.id := by
  rw [hasHandle_iff]
  constructor
  · rintro ⟨u, hu, hid⟩
    obtain ⟨e, he, rfl⟩ := List.mem_map.mp hu
    exact ⟨e.2, ⟨e.1, hs.get?_of_mem he⟩, hid⟩
  · rintro ⟨u, ⟨handle, hu⟩, hid⟩
    exact ⟨u, List.mem_map_of_mem (KeyMap.mem_of_get? hu), hid⟩

/-- The relations of a number count the sources that were registered there and are not lost: those
that were defined with them need a handle. The log has the number of the relations and the source
of each registration. -/
structure Tallied (w : Workspace) (log : List (Nat × Table)) : Prop where
  named : w.handles.Sorted
  inside : ∀ e ∈ log, e.1 < w.relations.length
  bounded : ∀ e ∈ log, e.2.id ≤ w.tables
  same : ∀ e ∈ log, ∀ t, w.Has t → e.2.id = t.id → e.2 = t
  nodup : ∀ n, (w.related n).sources.Nodup
  counts : ∀ n i, i ∈ (w.related n).sources ↔
    ∃ s, (n, s) ∈ log ∧ s.id = i ∧ (s.relations = n → w.hasHandle s = true)

namespace Tallied

/-- Handles may come and go as long as relations forget the tables that have lost their last one. -/
theorem handedOver (h : w.Tallied log) (lost : Table → Prop) (hnamed : w'.handles.Sorted)
    (hlength : w.relations.length ≤ w'.relations.length) (htables : w.tables ≤ w'.tables)
    (hhas : ∀ t, w'.Has t → w.Has t ∨ w.tables < t.id)
    (hkept : ∀ t, w.Has t → w'.Has t ∨ lost t) (hlost : ∀ t, lost t → w.Has t)
    (hnodup : ∀ n, (w'.related n).sources.Nodup)
    (hsources : ∀ n i, i ∈ (w'.related n).sources ↔ i ∈ (w.related n).sources ∧
      ∀ t, lost t → w'.hasHandle t = false → ¬ (n = t.relations ∧ i = t.id)) :
    w'.Tallied log := by
  refine ⟨hnamed, fun e he => (h.inside e he).trans_le hlength,
    fun e he => (h.bounded e he).trans htables, fun e he t ht hid => ?_, hnodup, fun n i => ?_⟩
  · rcases hhas t ht with ht | hnew
    · exact h.same e he t ht hid
    · have hbound := h.bounded e he
      omega
  rw [hsources, h.counts]
  -- A handle with the number of a logged source is one of that source, so a source with its last
  -- handle gone is the table that was lost.
  constructor
  · rintro ⟨⟨s, hs, rfl, hlive⟩, hforgotten⟩
    refine ⟨s, hs, rfl, fun hn => ?_⟩
    obtain ⟨u, hu, hid⟩ := (hasHandle_iff_has h.named).mp (hlive hn)
    obtain rfl := h.same _ hs u hu hid.symm
    rcases hkept _ hu with hu | hgone
    · exact hasHandle_of_has hu
    · by_contra hdead
      exact hforgotten _ hgone (Bool.eq_false_iff.mpr hdead) ⟨hn.symm, rfl⟩
  · rintro ⟨s, hs, rfl, hlive⟩
    refine ⟨⟨s, hs, rfl, fun hn => ?_⟩, fun t hgone hdead ⟨hn, hid⟩ => ?_⟩
    · obtain ⟨u, hu, hid⟩ := (hasHandle_iff_has hnamed).mp (hlive hn)
      rcases hhas u hu with hu | hnew
      · exact (hasHandle_iff_has h.named).mpr ⟨u, hu, hid⟩
      · have hbound : s.id ≤ w.tables := h.bounded _ hs
        omega
    · obtain rfl := h.same _ hs t (hlost t hgone) hid
      exact nomatch hdead.symm.trans (hlive hn.symm)

/-- Where no table loses its last handle, relations stay as they are. -/
theorem onward (h : w.Tallied log) (hnamed : w'.handles.Sorted)
    (hlength : w.relations.length ≤ w'.relations.length) (htables : w.tables ≤ w'.tables)
    (hhas : ∀ t, w'.Has t → w.Has t ∨ w.tables < t.id) (hkept : ∀ t, w.Has t → w'.Has t)
    (hrelated : ∀ n, w'.related n = w.related n) : w'.Tallied log := by
  refine h.handedOver (fun _ => False) hnamed hlength htables hhas (fun t ht => .inl (hkept t ht))
    (fun _ => False.elim) (fun n => ?_) fun n i => ?_
  · rw [hrelated]
    exact h.nodup n
  · rw [hrelated]
    simp

theorem congr (h : w.Tallied log) (hs : SameTables w w') : w'.Tallied log :=
  h.onward (hs.handles ▸ h.named) (hs.relations ▸ le_rfl) hs.tables.ge
    (fun _ ht => .inl (hs.has.mp ht)) (fun _ ht => hs.has.mpr ht) hs.related

theorem openContext (h : w.Tallied log) (name store : String) (limits : Limits) :
    (w.openContext name store limits).Tallied log :=
  h.onward h.named (by simp [Workspace.openContext]) le_rfl (fun _ => .inl) (fun _ => id)
    (related_openContext w name store limits)

/-- Releasing a table makes its relations forget it if it has no handle. -/
theorem mem_sources_release {i : Nat} :
    i ∈ ((w.release t).related n).sources ↔ i ∈ (w.related n).sources ∧
      (w.hasHandle t = false → ¬ (n = t.relations ∧ i = t.id)) := by
  unfold release
  split
  next hlive => simp [hlive]
  next hdead =>
    have hnone : w.hasHandle t = false := Bool.eq_false_iff.mpr hdead
    rw [related_modifyRelated]
    by_cases hn : n = t.relations
    · subst hn
      by_cases hlength : t.relations < w.relations.length
      · simp [hlength, hnone, Relations.mem_sources_eraseSource]
      · have hempty : w.related t.relations = .empty := by
          rw [related, List.getElem?_eq_none (by omega)]
          rfl
        simp [hlength, hempty, Relations.sources, Relations.empty]
    · simp [hn, Ne.symm hn]

theorem nodup_release (h : ∀ n, (w.related n).sources.Nodup) (t : Table) (n : Nat) :
    ((w.release t).related n).sources.Nodup := by
  unfold release
  split
  · exact h n
  · rw [related_modifyRelated]
    split
    · exact Relations.nodup_eraseSource (h n)
    · exact h n

/-- Handles change, and the table that may have lost its last one is released. -/
theorem released (h : w.Tallied log) {w₁ : Workspace} {old : Table} (hnamed : w₁.handles.Sorted)
    (hrelations : w₁.relations = w.relations) (htables : w.tables ≤ w₁.tables)
    (hhas : ∀ u, w₁.Has u → w.Has u ∨ w.tables < u.id)
    (hkept : ∀ u, w.Has u → w₁.Has u ∨ u = old) (hold : w.Has old) :
    (w₁.release old).Tallied log := by
  obtain ⟨hhandles, -, hcount⟩ := handles_release old w₁
  have hrelated : ∀ n, w₁.related n = w.related n := fun n => by rw [related, related, hrelations]
  have hlive : (w₁.release old).hasHandle = w₁.hasHandle := by
    funext u
    rw [hasHandle, hasHandle, hhandles]
  have hmem : ∀ u, (w₁.release old).Has u ↔ w₁.Has u := fun u => by rw [Has, Has, hhandles]
  refine h.handedOver (· = old) (hhandles ▸ hnamed) ?_ (hcount ▸ htables)
    (fun u hu => hhas u ((hmem u).mp hu)) (fun u hu => (hkept u hu).imp (hmem u).mpr id)
    (fun u hu => hu ▸ hold) (nodup_release (fun n => ?_) old) fun n i => ?_
  · unfold release
    split
    · rw [hrelations]
    · exact (congrArg List.length hrelations).ge.trans_eq (List.length_modify ..).symm
  · rw [hrelated]
    exact h.nodup n
  · rw [mem_sources_release, hlive, hrelated]
    simp

theorem setHandle (h : w.Tallied log) (handle : String) {m : Nat} (hm : w.tables ≤ m)
    (ht : w.Has t ∨ w.tables < t.id) :
    ({ w with tables := m }.setHandle handle t).Tallied log := by
  have hnamed : (w.handles.insert handle t).Sorted := h.named.insert handle t
  have hhas : ∀ u, (∃ other, (w.handles.insert handle t).get? other = some u) →
      w.Has u ∨ w.tables < u.id := by
    rintro u ⟨other, hother⟩
    rw [KeyMap.get?_insert] at hother
    split at hother
    · exact Option.some.inj hother ▸ ht
    · exact .inl ⟨other, hother⟩
  have hkept : ∀ u, w.Has u →
      (∃ other, (w.handles.insert handle t).get? other = some u) ∨
        w.handles.get? handle = some u := by
    rintro u ⟨other, hother⟩
    by_cases hname : other = handle
    · exact .inr (hname ▸ hother)
    · exact .inl ⟨other, by rw [KeyMap.get?_insert, if_neg hname, hother]⟩
  unfold Workspace.setHandle
  simp only
  split
  next old hold =>
    exact h.released hnamed rfl hm hhas
      (fun u hu => (hkept u hu).imp id fun hu => Option.some.inj (hu.symm.trans hold))
      ⟨handle, hold⟩
  next hnone =>
    exact h.onward hnamed le_rfl hm hhas
      (fun u hu => (hkept u hu).resolve_right fun hu => nomatch hu.symm.trans hnone) fun _ => rfl

theorem addTable (h : w.Tallied log) (handle title : String) (c : Context) (columns : Columns)
    (ref : CollectionRef) : (addTable handle title c columns ref w).2.Tallied log := by
  rw [run_addTable]
  exact h.setHandle handle (Nat.le_succ _) (.inr (Nat.lt_succ_self _))

theorem dropHandle (h : w.Tallied log) (handle : String) : (w.dropHandle handle).Tallied log := by
  unfold Workspace.dropHandle
  split
  next old hold =>
    refine h.released (List.Pairwise.filter _ h.named) rfl le_rfl ?_ ?_ ⟨handle, hold⟩
    · rintro u ⟨other, hother⟩
      rw [KeyMap.get?_erase] at hother
      split at hother
      · exact nomatch hother
      · exact .inl ⟨other, hother⟩
    · rintro u ⟨other, hother⟩
      by_cases hname : other = handle
      · exact .inr (Option.some.inj ((hname ▸ hother).symm.trans hold))
      · exact .inl ⟨other, by rw [KeyMap.get?_erase, if_neg hname, hother]⟩
  next => exact h

/-- A registration counts its source in the relations that it is made in. -/
theorem addTarget (h : w.Tallied log) (hi : w.Identified) (hs : w.Has source)
    (hn : n < w.relations.length) (key : String) (target : Table) :
    (w.addTarget n source key target).Tallied (log ++ [(n, source)]) := by
  have hlength : (w.addTarget n source key target).relations.length = w.relations.length :=
    List.length_modify ..
  have hlive : (w.addTarget n source key target).hasHandle = w.hasHandle := rfl
  refine ⟨h.named, fun e he => ?_, fun e he => ?_, fun e he t ht hid => ?_, fun m => ?_,
    fun m i => ?_⟩
  · rw [hlength]
    rcases List.mem_append.mp he with he | he
    · exact h.inside e he
    · exact List.mem_singleton.mp he ▸ hn
  · rcases List.mem_append.mp he with he | he
    · exact h.bounded e he
    · exact List.mem_singleton.mp he ▸ hi.numbered source (.inl hs)
  · rcases List.mem_append.mp he with he | he
    · exact h.same e he t ht hid
    · obtain rfl := List.mem_singleton.mp he
      exact hi.same source t (.inl hs) (.inl ht) hid
  · rw [Workspace.addTarget, related_modifyRelated]
    split
    · exact Relations.nodup_insert (h.nodup m)
    · exact h.nodup m
  · rw [hlive, Workspace.addTarget, related_modifyRelated]
    by_cases hm : n = m
    · subst hm
      rw [if_pos ⟨rfl, hn⟩, Relations.mem_sources_insert, h.counts]
      constructor
      · rintro (rfl | ⟨s, hlogged, hid, hs⟩)
        · exact ⟨source, by simp, rfl, fun _ => hasHandle_of_has hs⟩
        · exact ⟨s, List.mem_append_left _ hlogged, hid, hs⟩
      · rintro ⟨s, hlogged, rfl, hs⟩
        rcases List.mem_append.mp hlogged with hlogged | hlogged
        · exact .inr ⟨s, hlogged, rfl, hs⟩
        · obtain ⟨-, rfl⟩ := Prod.mk.inj (List.mem_singleton.mp hlogged)
          exact .inl rfl
    · rw [if_neg fun hboth => hm hboth.1, h.counts]
      simp [Ne.symm hm]

theorem setTargets (h : w.Tallied log) (hi : w.Identified) (hw : w.Wired) {links : List Link}
    (hlinks : ∀ l ∈ links, w.Has l.source ∧ w.Has l.target) :
    (w.setTargets links).Tallied (log ++ links.map fun l => (l.source.relations, l.source)) := by
  induction links generalizing w log with
  | nil =>
    rw [List.map_nil, List.append_nil]
    exact h
  | cons l links ih =>
    obtain ⟨⟨hsource, htarget⟩, hrest⟩ := List.forall_mem_cons.mp hlinks
    have hfirst := h.addTarget hi hsource (hw.placed _ hsource) l.key l.target
    have hwired := hw.setTarget (hi.numbered _ (.inl hsource)) l.key l.target
    have hidentified := hi.setTarget l.source l.key (.inl htarget)
    have hall := ih (w := w.setTarget l.source l.key l.target) hfirst hidentified hwired hrest
    rwa [List.append_assoc] at hall

end Tallied

/-- The registrations of an event. -/
def Event.registrations (e : Event) : List (Nat × Table) :=
  (e.named passed).map fun l => (l.source.relations, l.source)

theorem Tallied.turn (h : w.Tallied log) {links : List Link} (hrecorded : w.Recorded links)
    {e : Event} (ht : Turn w e w') : w'.Tallied (log ++ e.registrations) := by
  have hnone : w.Tallied (log ++ []) := by rwa [List.append_nil]
  apply ht.holds (P := fun later w' =>
    w'.Tallied (log ++ later.map fun l => (l.source.relations, l.source))) hnone
  · exact fun name store limits => hnone.openContext name store limits
  · exact fun _ handle title c columns ref w₁ _ hs =>
      (hnone.congr hs).addTable handle title c columns ref
  · exact fun handle t ht => hnone.setHandle handle le_rfl (.inl ht)
  · exact fun handle => hnone.dropHandle handle
  · exact fun later hlater => h.setTargets hrecorded.identified hrecorded.wired hlater
  · exact fun later w₁ w₂ h₁ hs => h₁.congr hs

/-- A registration in other relations does not show: tables look into their own. -/
theorem registered?_addTarget (hi : w.Identified) (hs : w.Has s) (hsource : w.Has source)
    (hn : n ≠ source.relations) (name : String) (target : Table) (key : String) :
    (w.addTarget n source name target).registered? s key = w.registered? s key := by
  unfold registered? addTarget
  rw [related_modifyRelated]
  split
  next hboth =>
    have hne : s.id ≠ source.id := fun hid => by
      obtain rfl := hi.same s source (.inl hs) (.inl hsource) hid
      exact hn hboth.1
    rw [Relations.targets_insert, if_neg hne]
  next => rfl

theorem Recorded.addTarget {links : List Link} (h : w.Recorded links) (hs : w.Has source)
    (ht : w.Has target) (n : Nat) (key : String) :
    ∃ links', (w.addTarget n source key target).Recorded links' := by
  have hlater : ∀ l ∈ [(⟨source, key, target, .oneWay⟩ : Link)],
      w.Has l.source ∧ w.Has l.target := by
    simpa using ⟨hs, ht⟩
  by_cases hn : n = source.relations
  · subst hn
    exact ⟨_, h.setTargets hlater⟩
  have hwired := h.wired.addTarget (h.identified.numbered source (.inl hs)) n key target
  exact ⟨links, h.onward (h.identified.addTarget n source key (.inl ht)) hwired le_rfl
    (fun _ _ hlive => hlive) (fun _ hu => .inl hu)
    fun _ hu => registered?_addTarget h.identified hu hs hn key target⟩

/-- A workspace with the registrations that led to it, oldest first. Tables may be registered in any
relations, their own or those of another context. -/
inductive Ledger : Workspace → List (Nat × Table) → Prop
  | start : Ledger empty []
  | turn {w w' : Workspace} {log : List (Nat × Table)} {e : Event} (h : Ledger w log)
      (ht : Turn w e w') : Ledger w' (log ++ e.registrations)
  | register {w w' : Workspace} {log : List (Nat × Table)} {source target : Table}
      {r : Except TableError Unit} (h : Ledger w log) {n : Nat} (hn : n < w.relations.length)
      (key : String) (hs : w.Has source) (ht : w.Has target)
      (hrun : register n source key target w = (r, w')) :
      Ledger w' (log ++ if passed r then [(n, source)] else [])

theorem History.ledger {past : List Event} (h : w.History past) :
    w.Ledger (past.flatMap Event.registrations) := by
  induction h with
  | start => exact .start
  | turn _ ht ih =>
    rw [List.flatMap_append, List.flatMap_singleton]
    exact ih.turn ht

theorem tallied_empty : empty.Tallied [] := by
  have hempty : ∀ n, empty.related n = .empty := fun _ => rfl
  refine ⟨List.Pairwise.nil, nofun, nofun, nofun, fun n => ?_, fun n i => ?_⟩
  · rw [hempty]
    exact List.nodup_nil
  · rw [hempty]
    simp [Relations.sources, Relations.empty]

theorem Ledger.tallied (h : w.Ledger log) : w.Tallied log ∧ ∃ links, w.Recorded links := by
  induction h with
  | start => exact ⟨tallied_empty, [], recorded_empty⟩
  | turn _ ht ih =>
    obtain ⟨htallied, links, hrecorded⟩ := ih
    exact ⟨htallied.turn hrecorded ht, _, hrecorded.turn ht⟩
  | register _ hn key hs ht hrun ih =>
    obtain ⟨htallied, links, hrecorded⟩ := ih
    obtain ⟨hpassed, hrefused⟩ := register_outcome hrun
    split
    next hp =>
      rw [hpassed hp]
      exact ⟨htallied.addTarget hrecorded.identified hs hn key _, hrecorded.addTarget hs ht _ key⟩
    next hp =>
      rw [hrefused (Bool.eq_false_iff.mpr hp), List.append_nil]
      exact ⟨htallied, links, hrecorded⟩

/-- The sources of the registrations in the relations of a number, without those that had been
defined with them and have no handle any more. -/
def counted (w : Workspace) (log : List (Nat × Table)) (n : Nat) : List Nat :=
  ((log.filter fun e => e.1 = n ∧ (e.2.relations = n → w.hasHandle e.2 = true)).map
    fun e => e.2.id).dedup

theorem mem_counted {i : Nat} : i ∈ w.counted log n ↔
    ∃ s, (n, s) ∈ log ∧ s.id = i ∧ (s.relations = n → w.hasHandle s = true) := by
  simp only [counted, List.mem_dedup, List.mem_map, List.mem_filter, decide_eq_true_eq]
  constructor
  · rintro ⟨⟨m, s⟩, ⟨hlogged, rfl, hlive⟩, rfl⟩
    exact ⟨s, hlogged, rfl, hlive⟩
  · rintro ⟨s, hlogged, rfl, hlive⟩
    exact ⟨(n, s), ⟨hlogged, rfl, hlive⟩, rfl⟩

/-- The tables with a handle that show a target in the relations of a number. -/
def shown (w : Workspace) (n : Nat) : List Nat :=
  (w.handles.values.map Table.id).dedup.filter fun i =>
    !((w.related n).ofSource w.hasHandle i).isEmpty

theorem mem_shown {i : Nat} : i ∈ w.shown n ↔
    (∃ t ∈ w.handles.values, t.id = i) ∧ (w.related n).ofSource w.hasHandle i ≠ [] := by
  simp [shown]

theorem nodup_shown (w : Workspace) (n : Nat) : (w.shown n).Nodup := (List.nodup_dedup _).filter _

/-- Relations count the sources that were registered in them, but for those of their own that have
no handle any more. That is as many as there are tables with a handle that show a target in them
just when each counted source is one. -/
theorem Ledger.size_settles (h : w.Ledger log) (n : Nat) :
    (w.related n).size = (w.counted log n).length ∧
      ((w.related n).isEmpty = true ↔ w.counted log n = []) ∧
      (w.shown n).length ≤ (w.related n).size ∧
      ((w.related n).size = (w.shown n).length ↔
        ∀ i ∈ w.counted log n, (∃ t ∈ w.handles.values, t.id = i) ∧
          (w.related n).ofSource w.hasHandle i ≠ []) := by
  obtain ⟨htallied, -⟩ := h.tallied
  have hperm : (w.related n).sources.Perm (w.counted log n) :=
    (List.perm_ext_iff_of_nodup (htallied.nodup n) (List.nodup_dedup _)).mpr fun i =>
      (htallied.counts n i).trans mem_counted.symm
  have hshown : (w.shown n).Subperm (w.counted log n) :=
    (nodup_shown w n).subperm fun i hi =>
      hperm.subset (Relations.mem_sources_of_ofSource (mem_shown.mp hi).2)
  have hsize : (w.related n).size = (w.counted log n).length :=
    (Relations.size_eq _).trans hperm.length_eq
  refine ⟨hsize, ?_, hsize ▸ hshown.length_le, ?_⟩
  · rw [Relations.isEmpty_iff, ← List.length_eq_zero_iff, ← List.length_eq_zero_iff,
      hperm.length_eq]
  rw [hsize]
  constructor
  · intro heq i hi
    exact mem_shown.mp ((hshown.perm_of_length_le heq.le).symm.subset hi)
  · intro hall
    have hback : (w.counted log n).Subperm (w.shown n) :=
      (List.nodup_dedup _).subperm fun i hi => mem_shown.mpr (hall i hi)
    exact le_antisymm hback.length_le hshown.length_le

/-- The chapters, registered in the relations of a second context and then dropped. -/
def chaptersElsewhere : Workspace :=
  ((chaptersAlone.openContext "d" "m" {}).addTarget 1 chapters "next" chapters).dropHandle
    "chapters"

/-- A source without a handle stays counted in relations that it was not defined with. -/
theorem size_settles_elsewhere : (chaptersElsewhere.related 1).size = 1 ∧
    chaptersElsewhere.hasHandle chapters = false := by
  have hopened := (history_chaptersAlone.turn (.openContext "d" "m" {})).ledger
  have hhas : (chaptersAlone.openContext "d" "m" {}).Has chapters := ⟨"chapters", rfl⟩
  have hregistered :=
    hopened.register (n := 1) (r := .ok ()) (Nat.lt_succ_self 1) "next" hhas hhas rfl
  have hdropped := hregistered.turn (.drop "chapters")
  exact ⟨(hdropped.size_settles 1).1.trans rfl, rfl⟩

/-- A source stays counted when its only target has lost its handle. -/
theorem not_forall_counted_shown : ¬ ∀ (w : Workspace) (log : List (Nat × Table)), w.Ledger log →
    ∀ n, (w.related n).size = (w.shown n).length := by
  intro hall
  have hhas : chaptersNoted.Has chapters ∧ chaptersNoted.Has notes :=
    ⟨⟨"chapters", rfl⟩, ⟨"notes", rfl⟩⟩
  have hrelated := history_chaptersNoted.turn (.relate "next" hhas.1 hhas.2 (r := .ok ()) rfl)
  have hdropped := hrelated.turn (.drop "notes")
  have hcounted := hall _ _ hdropped.ledger 0
  exact absurd hcounted (by decide)

end Workspace
end DocTables
