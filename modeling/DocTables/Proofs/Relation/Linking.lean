import DocTables.Proofs.Relation.History

/-!
Links of a list together. A faulty one stops all of them before anything happens. Otherwise their
targets are registered and each source declares its relations in one update of its schema.
-/
namespace DocTables
open Outcome Effect

namespace Link
variable {d : Table × String × Json} {ds : List (Table × String × Json)}
  {us : List (Table × Properties)} {links : List Link}

/-- What the declarations of a list say about one table, in their order. -/
def declared (t : Table) (ds : List (Table × String × Json)) : List (String × Json) :=
  (ds.filter fun d => d.1.id = t.id).map Prod.snd

/-- Updates for the declarations of a list: one for each table, by its number. -/
structure Grouped (ds : List (Table × String × Json)) (us : List (Table × Properties)) :
    Prop where
  ordered : us.Pairwise fun u v => u.1.id < v.1.id
  tables : ∀ t, t ∈ us.map Prod.fst ↔ t ∈ ds.map Prod.fst
  properties : ∀ u ∈ us, u.2 = .ofList (declared u.1 ds)

theorem map_fst_addDeclaration (hsame : ∀ u ∈ us, d.1.id = u.1.id → d.1 = u.1) (t : Table) :
    t ∈ (addDeclaration d us).map Prod.fst ↔ t ∈ us.map Prod.fst ∨ t = d.1 := by
  induction us with
  | nil => simp [addDeclaration]
  | cons u us ih =>
    obtain ⟨hu, hrest⟩ := List.forall_mem_cons.mp hsame
    unfold addDeclaration
    split
    next hid => simp [hu hid]; tauto
    split
    next => simp; tauto
    next => rw [List.map_cons, List.map_cons, List.mem_cons, List.mem_cons, ih hrest, or_assoc]

theorem ordered_addDeclaration (h : us.Pairwise fun u v => u.1.id < v.1.id)
    (hsame : ∀ u ∈ us, d.1.id = u.1.id → d.1 = u.1) :
    (addDeclaration d us).Pairwise fun u v => u.1.id < v.1.id := by
  induction us with
  | nil => exact List.pairwise_singleton ..
  | cons u us ih =>
    obtain ⟨hu, hus⟩ := List.pairwise_cons.mp h
    obtain ⟨-, hrest⟩ := List.forall_mem_cons.mp hsame
    unfold addDeclaration
    split
    next => exact List.pairwise_cons.mpr ⟨hu, hus⟩
    split
    next hlt =>
      refine List.pairwise_cons.mpr ⟨fun v hv => ?_, h⟩
      rcases List.mem_cons.mp hv with rfl | hv
      · exact hlt
      · exact hlt.trans (hu v hv)
    next hne hlt =>
      refine List.pairwise_cons.mpr ⟨fun v hv => ?_, ih hus hrest⟩
      have hgreater : u.1.id < d.1.id := by omega
      rcases (map_fst_addDeclaration hrest v.1).mp (List.mem_map_of_mem hv) with hold | hnew
      · obtain ⟨v', hv', heq⟩ := List.mem_map.mp hold
        exact heq ▸ hu v' hv'
      · exact hnew ▸ hgreater

theorem declared_append (t : Table) (ds : List (Table × String × Json))
    (d : Table × String × Json) :
    declared t (ds ++ [d]) = declared t ds ++ if d.1.id = t.id then [d.2] else [] := by
  unfold declared
  rw [List.filter_append, List.map_append]
  split <;> simp_all

theorem declared_first (hsource : (∃ e ∈ ds, e.1.id = d.1.id) → ∃ u ∈ us, u.1.id = d.1.id)
    (hnone : ∀ u ∈ us, u.1.id ≠ d.1.id) : declared d.1 (ds ++ [d]) = [d.2] := by
  have hempty : declared d.1 ds = [] := by
    rw [declared, List.map_eq_nil_iff, List.filter_eq_nil_iff]
    intro e he hid
    obtain ⟨u, hu, heq⟩ := hsource ⟨e, he, of_decide_eq_true hid⟩
    exact hnone u hu heq
  rw [declared_append, hempty, if_pos rfl, List.nil_append]

/-- An update that a declaration is added to, or that is made for it, holds what its table has
declared. -/
theorem properties_addDeclaration (h : us.Pairwise fun u v => u.1.id < v.1.id)
    (hus : ∀ u ∈ us, u.2 = .ofList (declared u.1 ds))
    (hsource : (∃ e ∈ ds, e.1.id = d.1.id) → ∃ u ∈ us, u.1.id = d.1.id) :
    ∀ u ∈ addDeclaration d us, u.2 = .ofList (declared u.1 (ds ++ [d])) := by
  have hother : ∀ t : Table, d.1.id ≠ t.id → declared t (ds ++ [d]) = declared t ds := by
    intro t hne
    rw [declared_append, if_neg hne, List.append_nil]
  induction us with
  | nil =>
    intro u hu
    obtain rfl := List.mem_singleton.mp hu
    rw [declared_first hsource (by simp)]
  | cons v us ih =>
    obtain ⟨hv, hrest⟩ := List.forall_mem_cons.mp hus
    obtain ⟨hlt, hordered⟩ := List.pairwise_cons.mp h
    have hlater : d.1.id ≤ v.1.id →
        ∀ u ∈ us, u.2 = .ofList (declared u.1 (ds ++ [d])) := by
      intro hle u hu
      have hgreater := hlt u hu
      rw [hother u.1 (by omega)]
      exact hrest u hu
    unfold addDeclaration
    split
    next hid =>
      refine List.forall_mem_cons.mpr ⟨?_, hlater hid.le⟩
      rw [declared_append, if_pos hid, KeyMap.ofList, KeyMap.insertAll, List.foldl_append]
      simp only [hv]
      rfl
    split
    next hid =>
      refine List.forall_mem_cons.mpr ⟨?_, List.forall_mem_cons.mpr ⟨?_, hlater hid.le⟩⟩
      · rw [declared_first hsource]
        intro u hu
        rcases List.mem_cons.mp hu with rfl | hu
        · omega
        · have hgreater := hlt u hu
          omega
      · rw [hother v.1 (by omega)]
        exact hv
    next hne hid =>
      refine List.forall_mem_cons.mpr ⟨?_, ?_⟩
      · rw [hother v.1 hne]
        exact hv
      · refine ih hordered hrest fun hexists => ?_
        obtain ⟨u, hu, heq⟩ := hsource hexists
        rcases List.mem_cons.mp hu with rfl | hu
        · exact absurd heq.symm hne
        · exact ⟨u, hu, heq⟩

theorem Grouped.add (h : Grouped ds us) (hsame : ∀ e ∈ ds, d.1.id = e.1.id → d.1 = e.1) :
    Grouped (ds ++ [d]) (addDeclaration d us) := by
  have hsame' : ∀ u ∈ us, d.1.id = u.1.id → d.1 = u.1 := by
    intro u hu
    obtain ⟨e, he, heq⟩ := List.mem_map.mp ((h.tables u.1).mp (List.mem_map_of_mem hu))
    rw [← heq]
    exact hsame e he
  refine ⟨ordered_addDeclaration h.ordered hsame', fun t => ?_,
    properties_addDeclaration h.ordered h.properties ?_⟩
  · rw [map_fst_addDeclaration hsame', h.tables, List.map_append, List.mem_append]
    simp
  · rintro ⟨e, he, hid⟩
    obtain ⟨u, hu, heq⟩ := List.mem_map.mp ((h.tables e.1).mpr (List.mem_map_of_mem he))
    exact ⟨u, hu, heq ▸ hid⟩

theorem grouped_foldl (hsame : ∀ d ∈ ds, ∀ e ∈ ds, d.1.id = e.1.id → d.1 = e.1) :
    Grouped ds (ds.foldl (fun us d => addDeclaration d us) []) := by
  induction ds using List.reverseRecOn with
  | nil => exact ⟨List.Pairwise.nil, fun _ => Iff.rfl, nofun⟩
  | append_singleton ds d ih =>
    rw [List.foldl_append]
    have hin : ∀ e ∈ ds, e ∈ ds ++ [d] := fun e he => List.mem_append_left _ he
    have hgrouped := ih fun e he f hf => hsame e (hin e he) f (hin f hf)
    exact hgrouped.add fun e he => hsame d (by simp) e (hin e he)

/-- The relations that the links of a list declare for one source, by property and in their
order. -/
def fragments (t : Table) (links : List Link) : List (String × Json) :=
  (links.filter fun l => l.source.id = t.id).filterMap fun l =>
    (l.source.columns.get? l.key).map fun c =>
      (c.name, relationConfig l.target.collection.source l.sides)

/-- The schema updates for the links of a list: one for each source, with the relations that its
links declare. A later one takes the place of an earlier one of the same property. -/
structure Collected (links : List Link) (us : List (Table × Properties)) : Prop where
  ordered : us.Pairwise fun u v => u.1.id < v.1.id
  sources : ∀ t, t ∈ us.map Prod.fst ↔ ∃ l ∈ links, l.source = t
  properties : ∀ u ∈ us, u.2 = .ofList (fragments u.1 links)

theorem declaration_eq_ok {l : Link} (h : l.declaration = .ok d) :
    ∃ c, l.source.columns.get? l.key = some c ∧
      d = (l.source, c.name, relationConfig l.target.collection.source l.sides) := by
  cases hfault : l.fault? with
  | some e => cases (declaration_refused hfault).symm.trans h
  | none =>
    obtain ⟨c, hc, haccepted⟩ := declaration_accepted hfault
    exact ⟨c, hc, Except.ok.inj (h.symm.trans haccepted)⟩

theorem sources_declarations (h : List.Forall₂ (fun l d => declaration l = .ok d) links ds) :
    ds.map Prod.fst = links.map source := by
  induction h with
  | nil => rfl
  | cons hd _ ih =>
    obtain ⟨c, -, rfl⟩ := declaration_eq_ok hd
    rw [List.map_cons, List.map_cons, ih]

theorem declared_declarations (h : List.Forall₂ (fun l d => declaration l = .ok d) links ds)
    (t : Table) : declared t ds = fragments t links := by
  induction h with
  | nil => rfl
  | @cons l d links ds hd _ ih =>
    obtain ⟨c, hc, rfl⟩ := declaration_eq_ok hd
    unfold declared fragments at ih ⊢
    by_cases hid : l.source.id = t.id <;> simp [hid, hc, ih]

theorem collected_updates (hfault : links.findSome? fault? = none)
    (hsame : ∀ l ∈ links, ∀ m ∈ links, l.source.id = m.source.id → l.source = m.source) :
    ∃ us, updates links = .ok us ∧ Collected links us := by
  have haccepted := List.findSome?_eq_none_iff.mp hfault
  obtain ⟨ds, hds⟩ := mapM_total fun l hl =>
    (declaration_accepted (haccepted l hl)).imp' _ fun _ hc => hc.2
  have hdeclarations := mapM_eq_ok.mp hds
  have hfst := sources_declarations hdeclarations
  have hgrouped : Grouped ds (ds.foldl (fun us d => addDeclaration d us) []) := by
    refine grouped_foldl fun d hd e he hid => ?_
    obtain ⟨l, hl, hld⟩ := List.mem_map.mp (hfst ▸ List.mem_map_of_mem (f := Prod.fst) hd)
    obtain ⟨m, hm, hme⟩ := List.mem_map.mp (hfst ▸ List.mem_map_of_mem (f := Prod.fst) he)
    rw [← hld, ← hme] at hid ⊢
    exact hsame l hl m hm hid
  refine ⟨_, bind_eq_ok.mpr ⟨ds, hds, rfl⟩, hgrouped.ordered, fun t => ?_, fun u hu => ?_⟩
  · rw [hgrouped.tables, hfst, List.mem_map]
  · rw [hgrouped.properties u hu, declared_declarations hdeclarations]

end Link

namespace Memory
variable {m : Memory} {source : String} {properties : Properties}

/-- The store takes updates of the schema of a data source. -/
def Extensible (m : Memory) (source : String) : Prop :=
  m.failure? .extendSchema = none ∧ ∃ c, m.collectionOf source = .ok c

theorem calls_extendSchema (m : Memory) (source : String) (properties : Properties) :
    (store.extendSchema source properties m).2.calls =
      m.calls ++ [.extendSchema source properties] := by
  rcases extendSchema_store_cases m source properties with ⟨c, -, h⟩ | ⟨e, h⟩ <;> rw [h] <;> rfl

theorem extendSchema_total (h : m.Extensible source) (properties : Properties) :
    ∃ c, m.collectionOf source = .ok c ∧ store.extendSchema source properties m =
      (.ok (), (m.noted [.extendSchema source properties]).extended c properties) := by
  obtain ⟨hworks, c, hc⟩ := h
  refine ⟨c, hc, ?_⟩
  have hdone : Memory.extendSchema source properties (m.noted [.extendSchema source properties]) =
      .ok ((), (m.noted [.extendSchema source properties]).extended c properties) :=
    extendSchema_eq_ok.mpr ⟨c, hc, rfl⟩
  exact perform_eq_ok (.extendSchema source properties) (Memory.extendSchema source properties)
    hworks hdone

/-- An update makes no data source refuse another one. -/
theorem Extensible.extended (h : m.Extensible source) (c : Collection) (properties : Properties) :
    (m.extended c properties).Extensible source := by
  obtain ⟨hworks, c', hc'⟩ := h
  obtain ⟨id, hid, hget⟩ := collectionOf_eq_ok.mp hc'
  refine ⟨hworks, ?_⟩
  by_cases heq : id = c.id
  · exact ⟨_, collectionOf_eq_ok.mpr ⟨c.id, heq ▸ hid, KeyMap.get?_insert_self _ _ _⟩⟩
  · exact ⟨c', collectionOf_eq_ok.mpr ⟨id, hid, (KeyMap.get?_insert_of_ne heq _ _).trans hget⟩⟩

end Memory

namespace Workspace
variable {w w' : Workspace} {links : List Link} {us : List (Table × Properties)}

/-- The store of a table takes updates of its schema. -/
def Extensible (w : Workspace) (t : Table) : Prop :=
  (w.memory t.store).Extensible t.collection.source

theorem send_cons (u : Table × Properties) (us : List (Table × Properties)) :
    Link.send storeAt (u :: us) =
      asking (.link u.1.title) ((storeAt u.1.store).extendSchema u.1.collection.source u.2) >>=
        fun _ => Link.send storeAt us := rfl

theorem send_total (h : ∀ u ∈ us, w.Extensible u.1) :
    ∃ w', Link.send storeAt us w = (.ok (), w') := by
  induction us generalizing w with
  | nil => exact ⟨w, rfl⟩
  | cons u us ih =>
    obtain ⟨hu, hrest⟩ := List.forall_mem_cons.mp h
    obtain ⟨c, -, hrun⟩ := Memory.extendSchema_total hu u.2
    have hstored : (storeAt u.1.store).extendSchema u.1.collection.source u.2 w = (.ok (), _) :=
      run_onStore hrun
    rw [send_cons, run_bind, run_asking_ok hstored]
    refine ih fun v hv => ?_
    unfold Extensible
    rw [memory_setMemory_eq]
    split
    next hstore =>
      have hv' := hrest v hv
      unfold Extensible at hv'
      rw [hstore] at hv'
      exact Memory.Extensible.extended hv' c u.2
    next => exact hrest v hv

/-- The calls that updates make in one store. -/
def updatesIn (name : String) (us : List (Table × Properties)) : List Call :=
  (us.filter fun u => u.1.store = name).map fun u => .extendSchema u.1.collection.source u.2

theorem calls_send (h : Link.send storeAt us w = (.ok (), w')) (name : String) :
    (w'.memory name).calls = (w.memory name).calls ++ updatesIn name us := by
  induction us generalizing w with
  | nil =>
    obtain ⟨-, rfl⟩ := Prod.mk.inj h
    exact (List.append_nil _).symm
  | cons u us ih =>
    rw [send_cons] at h
    obtain ⟨_, w₁, hasking, hrest⟩ := run_bind_eq_ok h
    obtain ⟨m, hm, rfl⟩ := onStore_eq (asking_eq_ok hasking)
    have hrun : Memory.store.extendSchema u.1.collection.source u.2 (w.memory u.1.store) =
        (.ok _, m) := hm
    have hcalls : m.calls = _ :=
      hrun ▸ Memory.calls_extendSchema (w.memory u.1.store) u.1.collection.source u.2
    rw [ih hrest, memory_setMemory_eq]
    unfold updatesIn
    split
    next hname =>
      subst hname
      simp [hcalls]
    next hname => simp [Ne.symm hname]

/-- Links of a list over any tables and stores. If one of them is faulty, the fault of the first is
reported and nothing happens. Otherwise every column that is named shows the target of the last link
that names it and other columns show what they showed. If the stores take the updates, each source
has sent one, with the relations of its links. -/
theorem link_settles {past : List Event} (h : w.History past)
    (hlinks : ∀ l ∈ links, w.Has l.source ∧ w.Has l.target) {r : Except TableError Unit}
    (hrun : link links w = (r, w')) :
    (∀ e, links.findSome? Link.fault? = some e → r = .error e ∧ w' = w) ∧
    (links.findSome? Link.fault? = none →
      (∀ l ∈ links, ∃ t, lastTarget l.source l.key links = some t ∧
        w'.target? l.source l.key = some t) ∧
      (∀ s key, w.Has s → (∀ l ∈ links, ¬ (l.source = s ∧ l.key = key)) →
        w'.target? s key = w.target? s key) ∧
      ((∀ l ∈ links, w.Extensible l.source) → r = .ok ()) ∧
      (r = .ok () → ∃ us, Link.Collected links us ∧
        ∀ name, (w'.memory name).calls = (w.memory name).calls ++ updatesIn name us)) := by
  have hrecorded := h.recorded
  have hsame : ∀ {s}, w.Has s → ∀ l ∈ links, l.source.id = s.id → l.source = s :=
    fun hs l hl => hrecorded.identified.same _ _ (.inl (hlinks l hl).1) (.inl hs)
  refine ⟨fun e he => ?_, fun hnone => ?_⟩
  · rw [run_link_refused he] at hrun
    obtain ⟨rfl, rfl⟩ := Prod.mk.inj hrun
    exact ⟨rfl, rfl⟩
  · obtain ⟨us, hus, hcollected⟩ := Link.collected_updates hnone
      fun l hl m hm => hsame (hlinks m hm).1 l hl
    rw [run_link_accepted hus] at hrun
    have hshown : ∀ s key, w.Has s →
        w'.target? s key = (lastTarget s key links).or (w.target? s key) := by
      intro s key hs
      have hsent := (keptByCalls_sameTables (w.setTargets links)).send us _ (.refl _)
      rw [hrun] at hsent
      rw [hsent.target?, target?_setTargets hrecorded.wired hrecorded.identified hlinks hs]
    have hstores : ∀ name, (w.setTargets links).memory name = w.memory name := by
      intro name
      unfold memory
      rw [(setTargets_fields links w).2.2]
    refine ⟨fun l hl => ?_, fun s key hs hnot => ?_, fun hall => ?_, fun hok => ?_⟩
    · cases hlast : lastTarget l.source l.key links with
      | none =>
        have hempty := List.getLast?_eq_none_iff.mp (Option.map_eq_none_iff.mp hlast)
        exact absurd (by simp) (List.filter_eq_nil_iff.mp hempty l hl)
      | some t => exact ⟨t, rfl, by rw [hshown _ _ (hlinks l hl).1, hlast]; rfl⟩
    · have hlast : lastTarget s key links = none :=
        lastTarget_eq_none fun l hl hnames => hnot l hl ⟨hsame hs l hl hnames.1, hnames.2⟩
      rw [hshown s key hs, hlast]
      rfl
    · have hextensible : ∀ u ∈ us, (w.setTargets links).Extensible u.1 := by
        intro u hu
        obtain ⟨l, hl, heq⟩ := (hcollected.sources u.1).mp (List.mem_map_of_mem hu)
        unfold Extensible
        rw [hstores, ← heq]
        exact hall l hl
      obtain ⟨w₁, hsent⟩ := send_total hextensible
      exact (Prod.mk.inj (hrun.symm.trans hsent)).1
    · subst hok
      refine ⟨us, hcollected, fun name => ?_⟩
      rw [calls_send hrun, hstores]

/-- Two links of one column. -/
def twoLinks : List Link :=
  [⟨chapters, "next", notes, .oneWay⟩, ⟨chapters, "next", chapters, .oneWay⟩]

theorem link_settles_twoLinks :
    ∃ w' us, link twoLinks chaptersNoted = (.ok (), w') ∧
      w'.target? chapters "next" = some chapters ∧ Link.Collected twoLinks us ∧
      (w'.memory "m").calls = (chaptersNoted.memory "m").calls ++ updatesIn "m" us := by
  have hchapters : chaptersNoted.Has chapters := ⟨"chapters", rfl⟩
  have hnotes : chaptersNoted.Has notes := ⟨"notes", rfl⟩
  have hlinks : ∀ l ∈ twoLinks, chaptersNoted.Has l.source ∧ chaptersNoted.Has l.target := by
    simpa [twoLinks] using ⟨⟨hchapters, hnotes⟩, hchapters⟩
  have hok : ∃ w', link twoLinks chaptersNoted = (.ok (), w') := ⟨_, rfl⟩
  obtain ⟨w', hrun⟩ := hok
  obtain ⟨hshown, -, -, hsent⟩ := (link_settles history_chaptersNoted hlinks hrun).2 rfl
  obtain ⟨us, hcollected, hcalls⟩ := hsent rfl
  obtain ⟨t, hlast, htarget⟩ := hshown ⟨chapters, "next", notes, .oneWay⟩ List.mem_cons_self
  obtain rfl : chapters = t := Option.some.inj hlast
  exact ⟨w', us, hrun, htarget, hcollected, hcalls "m"⟩

end Workspace
end DocTables
