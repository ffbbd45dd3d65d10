import DocTables.Proofs.Workspace.Operations

/-!
Operations that define and relate tables keep a workspace sound: a new table fits the data source it
is made with, checked against or read from, and links declare only what columns already have.
-/
namespace DocTables.Workspace
open Outcome Effect
variable {watch : Table → Prop} {w w' : Workspace} {handle title : String} {c : Context}
  {columns : Columns}

/-- The table that is numbered next. -/
def nextTable (w : Workspace) (title : String) (c : Context) (columns : Columns)
    (ref : CollectionRef) : Table :=
  ⟨w.tables + 1, title, columns, ref, c.store, c.relations, c.limits⟩

theorem run_addTable (handle title : String) (c : Context) (columns : Columns)
    (ref : CollectionRef) (w : Workspace) :
    addTable handle title c columns ref w =
      (.ok (w.nextTable title c columns ref),
        w.withTable handle (w.nextTable title c columns ref)) := rfl

/-- A collection that is made for columns: its data source is new to the store, and its schema is
that of the columns. -/
theorem bind_under (h : w.Sound watch) {parent : String} {ref : CollectionRef}
    (href : Table.bind storeAt c.store title columns (.under parent) w = (.ok ref, w')) :
    w'.Sound watch ∧ w'.handles = w.handles ∧
      (w.memory c.store).sources.get? ref.source = none ∧
      (w'.memory c.store).records = (w.memory c.store).records ∧
      (w'.memory c.store).collectionOf ref.source =
        .ok ⟨ref.collection, ref.source, columns.schema.map Stamp.tagged⟩ := by
  obtain ⟨m, hm, rfl⟩ := onStore_eq (asking_eq_ok href)
  have hrun : Memory.store.addCollection parent title columns.schema (w.memory c.store) =
      (.ok ref, m) := hm
  have hcontinues := (h.memory c.store).addCollection_store parent title columns.schema
  rw [hrun] at hcontinues
  rw [memory_setMemory]
  exact ⟨h.setMemory hcontinues, rfl,
    Memory.addCollection_eq_ok (h.memory c.store).coherent hrun⟩

theorem readSchema_eq_ok (h : w.Sound watch) {name id : String} {found : Collection}
    (hfound : (storeAt name).readSchema id w = (.ok found, w')) :
    w'.Sound watch ∧ (w'.memory name).collectionOf found.source = .ok found := by
  obtain ⟨m, hm, rfl⟩ := onStore_eq hfound
  have hrun : Memory.store.readSchema id (w.memory name) = (.ok found, m) := hm
  have hcontinues := (h.memory name).readSchema_store id
  rw [hrun] at hcontinues
  rw [memory_setMemory]
  exact ⟨h.setMemory hcontinues, (Memory.readSchema_eq_ok (h.memory name).coherent hrun).1⟩

/-- A collection that is there has the properties that the columns are checked against. -/
theorem bind_existing (h : w.Sound watch) {collection : String} {ref : CollectionRef}
    (href : Table.bind storeAt c.store title columns (.existing collection) w = (.ok ref, w')) :
    w'.Sound watch ∧ ∃ found, ref = found.ref ∧
      (w'.memory c.store).collectionOf found.source = .ok found ∧
        columns.Declared found.properties := by
  obtain ⟨found, w₁, hfound, href⟩ := run_bind_eq_ok href
  obtain ⟨_, w₂, hcheck, href⟩ := run_bind_eq_ok href
  obtain ⟨hchecked, rfl⟩ := Prod.mk.inj hcheck
  obtain ⟨heq, rfl⟩ := Prod.mk.inj href
  obtain rfl := Except.ok.inj heq
  obtain ⟨hsound, hcollection⟩ := readSchema_eq_ok h (asking_eq_ok hfound)
  exact ⟨hsound, found, rfl, hcollection, Columns.checkSchema_eq_ok.mp hchecked⟩

/-- A new table is sound over a data source whose schema has its columns. -/
theorem Sound.addTable (h : w.Sound watch) {ref : CollectionRef} {found : Collection}
    (hfound : (w.memory c.store).collectionOf ref.source = .ok found)
    (hdeclared : Watched watch c.store ref.source → columns.Declared found.properties) :
    (addTable handle title c columns ref w).2.Sound watch := by
  rw [run_addTable]
  refine h.withTable handle rfl ?_ fun hw => ?_
  · obtain ⟨id, hid, -⟩ := Memory.collectionOf_eq_ok.mp hfound
    exact ⟨id, hid⟩
  · exact Table.fits_of_declared hfound (hdeclared hw)

theorem keeps_bind (store title : String) (columns : Columns) (binding : Binding) :
    Keeps (Sound watch) (Table.bind storeAt store title columns binding) := by
  cases binding with
  | under parent =>
    exact .asking fun w h => h.onStore ((h.memory store).addCollection_store parent title _)
  | existing collection =>
    have hread : Keeps (Sound watch) ((storeAt store).readSchema collection) :=
      fun w h => h.onStore ((h.memory store).readSchema_store collection)
    exact (Keeps.asking hread).bind fun found => (Keeps.checked _).bind fun _ => .pure found.ref

theorem Sound.define (h : w.Sound watch) (handle title : String) (c : Context) (columns : Columns)
    (binding : Binding) : (define handle title c columns binding w).2.Sound watch := by
  refine holds_bind (keeps_bind c.store title columns binding w h) fun ref w' href => ?_
  cases binding with
  | under parent =>
    obtain ⟨hsound, -, hfresh, -, hcollection⟩ := bind_under h href
    refine hsound.addTable hcollection fun hw => ?_
    -- The data source was not there before, so no watched table can be over it.
    obtain ⟨id, hid⟩ := (h.memory c.store).registered hw
    exact nomatch hfresh.symm.trans hid
  | existing collection =>
    obtain ⟨hsound, found, rfl, hcollection, hdeclared⟩ := bind_existing h href
    exact hsound.addTable hcollection fun _ => hdeclared

/-- A table that is made with its collection is always made. -/
theorem Sound.define_total (h : w.Sound watch) (handle title : String) (c : Context)
    (columns : Columns) (parent : String) :
    ∃ t w', Workspace.define handle title c columns (.under parent) w = (.ok t, w') := by
  have hadd := Memory.perform_eq_ok (.addCollection parent title columns.schema)
    (fun m => .ok (Memory.addCollection columns.schema m))
    ((h.memory c.store).coherent.failure? _) rfl
  have hbind : Table.bind storeAt c.store title columns (.under parent) w = (.ok _, _) :=
    run_asking_ok (run_onStore hadd)
  exact ⟨_, _, (run_bind_ok hbind _).trans (run_addTable handle title c columns _ _)⟩

/-- A table with distinct names that is made with its collection is alone over its data source and
can be watched from the start. -/
theorem Sound.define_under (h : w.Sound watch) {parent : String} {t : Table}
    (hnames : columns.NamesDistinct)
    (hdefine : Workspace.define handle title c columns (.under parent) w = (.ok t, w')) :
    w'.Sound (fun u => watch u ∨ u = t) ∧ t.columns = columns := by
  have hdefined := h.define handle title c columns (.under parent)
  rw [hdefine] at hdefined
  obtain ⟨ref, w₁, href, hadd⟩ := run_bind_eq_ok hdefine
  obtain ⟨-, hhandles, hfresh, hrecords, hcollection⟩ := bind_under h href
  rw [run_addTable] at hadd
  obtain ⟨ht, rfl⟩ := Prod.mk.inj hadd
  obtain rfl := Except.ok.inj ht
  have hfound :
      ((w₁.withTable handle (w₁.nextTable title c columns ref)).memory c.store).collectionOf
        ref.source = .ok ⟨ref.collection, ref.source, columns.schema.map Stamp.tagged⟩ := by
    rw [memory_withTable]
    exact hcollection
  have hfits := Table.fits_of_declared (t := w₁.nextTable title c columns ref) hfound
    (Columns.declared_schema hnames)
  refine ⟨hdefined.watching (has_withTable _ _ _) hfits ⟨fun hc => ?_, fun s hs hsource => ?_⟩ ?_,
    rfl⟩
  · rw [← Except.ok.inj (hfound.symm.trans hc)]
    exact (KeyMap.sorted_ofList _).map _
  · -- No record was in the data source before.
    rw [memory_withTable] at hs
    have hmem : s ∈ (w.memory c.store).records := hrecords ▸ hs
    obtain ⟨id, hid⟩ := (h.memory c.store).coherent.records s hmem
    rw [hsource] at hid
    exact nomatch hfresh.symm.trans hid
  · intro u hu hstore hsource
    rcases inUse_withTable hu with rfl | hu
    · rfl
    · have hbefore : InUse watch w u :=
        hu.of_has fun t ⟨other, hother⟩ => ⟨other, hhandles ▸ hother⟩
      obtain ⟨id, hid⟩ := h.registered u hbefore
      rw [hstore, hsource] at hid
      exact nomatch hfresh.symm.trans hid

theorem Sound.introspect (h : w.Sound watch) (handle title : String) (c : Context)
    (collection : String) : (introspect handle title c collection w).2.Sound watch := by
  refine holds_bind ?_ fun found w' hfound => ?_
  · rw [state_asking]
    exact h.onStore ((h.memory c.store).readSchema_store collection)
  · obtain ⟨hsound, hcollection⟩ := readSchema_eq_ok h (asking_eq_ok hfound)
    refine hsound.addTable hcollection fun hw => ?_
    exact Columns.declared_ofSchema (((hsound.memory c.store).typed hw).sorted hcollection)

section Linking

theorem Sound.setTarget (h : w.Sound watch) (source : Table) (key : String) (target : Table) :
    (w.setTarget source key target).Sound watch := h.congr rfl rfl fun _ ht => ht

theorem Sound.relate (h : w.Sound watch) (source : Table) (key : String) (target : Table) :
    (relate source key target w).2.Sound watch := by
  refine Keeps.bind_checked (fun _ _ => ?_) w h
  exact fun w h => h.setTarget source key target

/-- Declarations of relations, for properties that stand for relation columns of a table. -/
def Relates (t : Table) (properties : Properties) : Prop :=
  ∀ p ∈ properties.entries, (Stamp.tagged p.2).declaredType? = some PropertyType.relation.key ∧
    ∃ e ∈ t.columns.entries, e.2.name = p.1 ∧ e.2.type = .relation

theorem relates_declaration {l : Link} {d : Table × String × Json} (h : l.declaration = .ok d) :
    d.1 = l.source ∧ Relates l.source (.ofList [d.2]) := by
  obtain ⟨c, hc, h⟩ := bind_eq_ok.mp h
  obtain rfl := Except.ok.inj h
  unfold Link.column at hc
  split at hc
  next =>
    obtain ⟨hmem, htype⟩ := Table.relationColumn_eq_ok hc
    refine ⟨rfl, fun p hp => ?_⟩
    obtain rfl := List.mem_singleton.mp (KeyMap.mem_ofList hp)
    exact ⟨Stamp.declaredType?_relationConfig _ _, (l.key, c), hmem, rfl, htype⟩
  next => simp at hc

theorem Relates.insert {t : Table} {properties : Properties} (h : Relates t properties)
    {d : String × Json} (hd : Relates t (.ofList [d])) : Relates t (properties.insert d.1 d.2) := by
  intro p hp
  rcases KeyMap.mem_insertEntry hp with rfl | hp
  · exact hd d (by simp [KeyMap.ofList, KeyMap.insertAll, KeyMap.insert, KeyMap.insertEntry,
      KeyMap.empty])
  · exact h p hp

/-- Schema updates for tables in use, each with declarations for its own table. -/
def Declarative (watch : Table → Prop) (w : Workspace) (updates : List (Table × Properties)) :
    Prop :=
  ∀ u ∈ updates, InUse watch w u.1 ∧ Relates u.1 u.2

theorem Declarative.addDeclaration (h : w.Sound watch) {us : List (Table × Properties)}
    (hus : Declarative watch w us) {d : Table × String × Json} (hd : InUse watch w d.1)
    (hrelates : Relates d.1 (.ofList [d.2])) : Declarative watch w (Link.addDeclaration d us) := by
  induction us with
  | nil =>
    intro u hu
    obtain rfl := List.mem_singleton.mp hu
    exact ⟨hd, hrelates⟩
  | cons v us ih =>
    obtain ⟨⟨huse, hv⟩, hrest⟩ := List.forall_mem_cons.mp hus
    unfold Link.addDeclaration
    split
    next hid =>
      -- Tables of one number are one table, so the declaration is for this one.
      have hsame := h.same d.1 v.1 hd huse hid
      rw [hsame] at hrelates
      exact List.forall_mem_cons.mpr ⟨⟨huse, hv.insert hrelates⟩, hrest⟩
    split
    next => exact List.forall_mem_cons.mpr ⟨⟨hd, hrelates⟩, hus⟩
    next => exact List.forall_mem_cons.mpr ⟨⟨huse, hv⟩, ih hrest⟩

theorem Declarative.addDeclarations (h : w.Sound watch) {ds : List (Table × String × Json)}
    (hds : ∀ d ∈ ds, InUse watch w d.1 ∧ Relates d.1 (.ofList [d.2]))
    {us : List (Table × Properties)} (hus : Declarative watch w us) :
    Declarative watch w (ds.foldl (fun us d => Link.addDeclaration d us) us) := by
  induction ds generalizing us with
  | nil => exact hus
  | cons d ds ih =>
    obtain ⟨⟨huse, hrelates⟩, hrest⟩ := List.forall_mem_cons.mp hds
    exact ih hrest (hus.addDeclaration h huse hrelates)

theorem declarative_updates (h : w.Sound watch) {links : List Link}
    (hlinks : ∀ l ∈ links, InUse watch w l.source) {updates : List (Table × Properties)}
    (hupdates : Link.updates links = .ok updates) : Declarative watch w updates := by
  obtain ⟨ds, hds, hupdates⟩ := bind_eq_ok.mp hupdates
  obtain rfl := Except.ok.inj hupdates
  refine Declarative.addDeclarations h (fun d hd => ?_) nofun
  obtain ⟨l, hl, hdeclaration⟩ := (exists_mem_of_forall₂ (mapM_eq_ok.mp hds)).2 d hd
  obtain ⟨hsource, hrelates⟩ := relates_declaration hdeclaration
  rw [hsource]
  exact ⟨hlinks l hl, hrelates⟩

/-- Relation columns have the type that a link declares. -/
theorem redeclares_of_relates {t : Table} {m : Memory} {properties : Properties} (h : t.Fits m)
    (hp : Relates t properties) : m.Redeclares t.collection.source properties := by
  intro p hmem type hdeclares
  obtain ⟨hdeclared, e, he, hname, htype⟩ := hp p hmem
  have hfits := h e he
  rw [hname, htype] at hfits
  rw [hdeclared, hfits.unique hdeclares]

theorem keeps_send {w₀ : Workspace} {updates : List (Table × Properties)}
    (hupdates : Declarative watch w₀ updates) :
    Keeps (Follows watch w₀) (Link.send storeAt updates) := by
  refine Keeps.forM fun u hu => .asking fun w h => ?_
  obtain ⟨huse, hrelates⟩ := hupdates u hu
  refine h.onStore ((h.sound.memory u.1.store).extendSchema_store fun hw => ?_)
  exact redeclares_of_relates (h.sound.fits u.1 (h.inUse huse) hw) hrelates

/-- The targets of all links of a list are registered one after another. -/
def setTargets (links : List Link) (w : Workspace) : Workspace :=
  links.foldl (fun w l => w.setTarget l.source l.key l.target) w

theorem setTargets_fields (links : List Link) (w : Workspace) :
    (w.setTargets links).handles = w.handles ∧ (w.setTargets links).tables = w.tables ∧
      (w.setTargets links).stores = w.stores := by
  induction links generalizing w with
  | nil => exact ⟨rfl, rfl, rfl⟩
  | cons l links ih => exact ih (w.setTarget l.source l.key l.target)

theorem Follows.setTargets {w₀ : Workspace} (h : Follows watch w₀ w) (links : List Link) :
    Follows watch w₀ (w.setTargets links) := by
  obtain ⟨hhandles, htables, hstores⟩ := setTargets_fields links w
  have hsound := h.sound.congr hstores htables fun t ⟨name, hname⟩ => ⟨name, hhandles ▸ hname⟩
  exact ⟨hsound, hhandles.trans h.handles⟩

theorem Sound.link (h : w.Sound watch) {links : List Link}
    (hlinks : ∀ l ∈ links, InUse watch w l.source) : (link links w).2.Sound watch := by
  unfold Workspace.link
  refine Keeps.bind_checked (fun updates hupdates => ?_) w h.follows |>.sound
  have htargets : Keeps (Follows watch w) (modify (setTargets links) : TableM Workspace Unit) :=
    fun _ hw => hw.setTargets links
  exact htargets.bind fun _ => keeps_send (declarative_updates h hlinks hupdates)

end Linking

end DocTables.Workspace
