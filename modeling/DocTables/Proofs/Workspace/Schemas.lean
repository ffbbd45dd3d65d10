import DocTables.Proofs.Workspace.Sources

/-!
Tables, records and schemas agree. Every data source is one that could be watched from the start:
its schema declares the columns of all tables over it and the properties of all its records,
whatever operations follow.
-/
namespace DocTables
open Outcome Effect

/-- Every property of the record is declared, with the type that the property itself has. -/
def Record.Conforms (r : Record) (schema : Properties) : Prop :=
  ∀ name p, r.properties.get? name = some p → ∃ config type, schema.get? name = some config ∧
    config.declaredType? = some type ∧ p.declaredType? = some type

/-- Collections to start from. Those that are made later get fresh names. These are numbered here,
so no seed has such a name. -/
structure Seeds (cs : List Collection) : Prop where
  ids : (cs.map Collection.id).Nodup
  sources : (cs.map Collection.source).Nodup
  unnumbered : ∀ c ∈ cs, ∀ n : Nat,
    "new-ds-" ++ toString n ≠ c.source ∧ "new-col-" ++ toString n ≠ c.id
  sorted : ∀ c ∈ cs, c.properties.Sorted

theorem Seeds.tail {c : Collection} {cs : List Collection} (h : Seeds (c :: cs)) : Seeds cs :=
  ⟨(List.nodup_cons.mp h.ids).2, (List.nodup_cons.mp h.sources).2,
    fun c' hc' => h.unnumbered c' (.tail _ hc'), fun c' hc' => h.sorted c' (.tail _ hc')⟩

namespace Memory
variable {m : Memory} {source : String} {c : Collection}

/-- A memory before its first call. -/
structure Unused (m : Memory) : Prop where
  coherent : m.Coherent
  records : m.records = []
  created : m.created = 0
  sorted : ∀ {source c}, m.collectionOf source = .ok c → c.properties.Sorted

theorem unused_empty : Memory.empty.Unused := ⟨coherent_empty, rfl, rfl, nofun⟩

theorem Unused.typed (h : m.Unused) (source : String) : m.Typed source := by
  refine ⟨h.sorted, fun s hs => ?_⟩
  rw [h.records] at hs
  exact nomatch hs

theorem Unused.seed (h : m.Unused) (hfree : m.Free c m.created) (hs : c.properties.Sorted) :
    (m.seed c).Unused := by
  refine ⟨h.coherent.seeded hfree, h.records, h.created, fun {source c'} hc' => ?_⟩
  obtain ⟨id, hid, hget⟩ := collectionOf_eq_ok.mp hc'
  change (m.seeded c m.created).sources.get? source = some id at hid
  change (m.seeded c m.created).collections.get? id = some c' at hget
  rw [get?_sources_seeded] at hid
  split at hid
  next =>
    obtain rfl := Option.some.inj hid
    rw [get?_collections_seeded, if_pos rfl] at hget
    rw [← Option.some.inj hget]
    exact hs.map _
  next =>
    rw [get?_collections_seeded, if_neg (h.coherent.ne_of_free hfree hid).2] at hget
    exact h.sorted (collectionOf_eq_ok.mpr ⟨id, hid, hget⟩)

/-- Seeds go to names that are free, one after the other. -/
theorem Unused.seeds {cs : List Collection} (h : m.Unused) (hcs : Seeds cs)
    (hfree : ∀ c ∈ cs, m.sources.get? c.source = none ∧ m.collections.get? c.id = none) :
    (cs.foldl Memory.seed m).Unused := by
  induction cs generalizing m with
  | nil => exact h
  | cons c cs ih =>
    obtain ⟨⟨hsource, hid⟩, hrest⟩ := List.forall_mem_cons.mp hfree
    have hnext : m.Free c m.created :=
      ⟨hsource, hid, le_rfl, fun n _ => hcs.unnumbered c (.head _) n⟩
    refine ih (h.seed hnext (hcs.sorted c (.head _))) hcs.tail fun c' hc' => ?_
    have hsources : c'.source ≠ c.source := fun he =>
      (List.nodup_cons.mp hcs.sources).1 (he ▸ List.mem_map_of_mem hc')
    have hids : c'.id ≠ c.id := fun he =>
      (List.nodup_cons.mp hcs.ids).1 (he ▸ List.mem_map_of_mem hc')
    obtain ⟨hsource', hid'⟩ := hrest c' hc'
    constructor
    · exact (KeyMap.get?_insert_of_ne hsources _ _).trans hsource'
    · exact (KeyMap.get?_insert_of_ne hids _ _).trans hid'

theorem unused_seeds {cs : List Collection} (hcs : Seeds cs) :
    (cs.foldl Memory.seed .empty).Unused := unused_empty.seeds hcs fun _ _ => ⟨rfl, rfl⟩

end Memory

namespace Workspace
variable {watch watch' : Table → Prop} {w w' : Workspace} {t : Table} {name : String}

/-- Other tables may be watched if they are in use and over data sources that are watched. -/
theorem Sound.rewatch (h : w.Sound watch) (huse : ∀ t, watch' t → InUse watch w t)
    (hwatched : ∀ t, watch' t → Watched watch t.store t.collection.source) :
    w.Sound watch' := by
  have hinUse : ∀ {t}, InUse watch' w t → InUse watch w t := by
    rintro t (ht | ht)
    · exact huse t ht
    · exact .inr ht
  have hsources : ∀ {name source}, Watched watch' name source → Watched watch name source := by
    rintro name source ⟨t, ht, rfl, rfl⟩
    exact hwatched t ht
  refine ⟨fun name => ⟨(h.memory name).coherent, fun hw => (h.memory name).registered (hsources hw),
    fun hw => (h.memory name).typed (hsources hw)⟩, fun t ht => h.registered t (hinUse ht),
    fun t ht hw => h.fits t (hinUse ht) (hsources hw), fun t ht => h.numbered t (hinUse ht),
    fun t u ht hu => h.same t u (hinUse ht) (hinUse hu)⟩

/-- Each data source can be watched, and each table is placed. -/
structure Covered (w : Workspace) : Prop where
  sound : w.Sound fun _ => False
  watched : ∀ {name source id}, (w.memory name).sources.get? source = some id →
    ∃ watch, Watched watch name source ∧ w.Sound watch
  placed : ∀ t, w.Has t → w.Placed t

namespace Covered

/-- Tables that are there stay placed and data sources stay watched, so only what is new counts. -/
theorem next (h : w.Covered) (hs : w.Step w')
    (hnew : ∀ name source id, (w'.memory name).sources.get? source = some id →
      (w.memory name).sources.get? source = some id ∨
        ∃ watch, Watched watch name source ∧ w'.Sound watch)
    (hplaced : ∀ t, w'.Has t → w.Has t ∨ w'.Placed t) : w'.Covered := by
  refine ⟨h.sound.step hs, fun {name source id} hid => ?_, fun t ht => ?_⟩
  · rcases hnew name source id hid with hold | hwatched
    · obtain ⟨watch, hw, hsound⟩ := h.watched hold
      exact ⟨watch, hw, hsound.step hs⟩
    · exact hwatched
  · rcases hplaced t ht with hold | hplaced
    · exact grows_of_step h.sound hs _ _ _ (h.placed t hold)
    · exact hplaced

theorem step (h : w.Covered) (hs : w.Step w')
    (hnames : ∀ t, w'.Has t → t.columns.NamesDistinct) : w'.Covered := by
  rcases cases_of_step h.sound hs with
    hwithin | ⟨handle, t, w₁, hwithin, hplaced, rfl⟩ | ⟨handle, title, c, columns, parent, t, hrun⟩
  · -- Neither a table nor a data source is new.
    refine h.next hs (fun name source id hid => .inl ?_) fun t ht => .inl (hwithin.handles t ht)
    rwa [← hwithin.sources]
  · -- The new table is over a data source that was there.
    refine h.next hs (fun name source id hid => .inl ?_) fun u hu => ?_
    · rwa [memory_withTable, hwithin.sources] at hid
    · rcases has_withTable_cases hu with rfl | hold
      · refine .inr ?_
        unfold Placed
        rwa [memory_withTable]
      · exact .inl (hwithin.handles u hold)
  · -- The new table is over a data source of its own, so it can be watched from now on.
    obtain ⟨rfl, ht, hhas, -, hsources⟩ := sources_define_under h.sound hrun
    refine h.next hs (fun name source id hid => ?_) fun u hu => ?_
    · rw [hsources] at hid
      split at hid
      next hnew =>
        have hsound := (h.sound.define_under (hnames t ht) hrun).1
        exact .inr ⟨_, ⟨t, .inr rfl, hnew.1.symm, hnew.2.symm⟩, hsound⟩
      next => exact .inl hid
    · rcases hhas u hu with rfl | hold
      · refine .inr ?_
        unfold Placed
        rw [hsources, if_pos ⟨rfl, rfl⟩]
      · exact .inl hold

/-- A table can be watched from any time at which it has a handle. -/
theorem watches (h : w.Covered) (ht : w.Has t) : w.Sound (· = t) := by
  obtain ⟨watch, hw, hsound⟩ := h.watched (h.placed t ht)
  exact hsound.rewatch (fun u hu => hu ▸ .inr ht) fun u hu => hu ▸ hw

theorem conforms (h : w.Covered) {s : SourcedRecord} (hs : s ∈ (w.memory name).records) :
    ∃ c, (w.memory name).collectionOf s.source = .ok c ∧ s.record.Conforms c.properties := by
  have hcoherent := (h.sound.memory name).coherent
  obtain ⟨id, hid⟩ := hcoherent.records s hs
  obtain ⟨c, hc, -⟩ := hcoherent.collectionOf hid
  obtain ⟨watch, hw, hsound⟩ := h.watched hid
  refine ⟨c, hc, fun key p hp => ?_⟩
  obtain ⟨type, ⟨c', hc', hdeclared⟩, hwritten⟩ :=
    ((hsound.memory name).typed hw).written s hs rfl hp
  obtain rfl := Except.ok.inj (hc'.symm.trans hc)
  obtain ⟨config, hconfig, htype⟩ := Option.bind_eq_some_iff.mp hdeclared
  exact ⟨config, type.key, hconfig, htype, hwritten.declaredType?⟩

end Covered

/-- Operations on tables whose columns have distinct names. -/
abbrev Runs : Workspace → Workspace → Prop :=
  Relation.ReflTransGen fun w w' => w.Step w' ∧ ∀ t, w'.Has t → t.columns.NamesDistinct

theorem Runs.reaches (h : Runs w w') : Reaches w w' := by
  induction h with
  | refl => exact .refl
  | tail _ hs ih => exact ih.tail hs.1

theorem Covered.runs (h : w.Covered) (hr : Runs w w') : w'.Covered := by
  induction hr with
  | refl => exact h
  | tail _ hs ih => exact ih.step hs.1 hs.2

/-- A table that was made stays attached, also when it has lost its handles. -/
theorem Covered.declares (h : w.Covered) (ht : w.Has t) (hr : Runs w w') :
    ∃ c, (w'.memory t.store).collections.get? t.collection.collection = some c ∧
      c.ref = t.collection ∧ t.columns.checkSchema c.properties = .ok () := by
  have hid := h.sound.grows hr.reaches _ _ _ (h.placed t ht)
  have hsound := (h.watches ht).reaches hr.reaches
  have hcoherent := (hsound.memory t.store).coherent
  obtain ⟨c, hc, hname, hsource⟩ := hcoherent.collectionOf hid
  refine ⟨c, hname ▸ (hcoherent.of_collectionOf hc).2.2, ?_, ?_⟩
  · unfold Collection.ref
    rw [hname, hsource]
  · refine Columns.checkSchema_eq_ok.mpr fun e he => ?_
    obtain ⟨c', hc', hdeclared⟩ := hsound.fits t (.inl rfl) ⟨t, rfl, rfl, rfl⟩ e he
    rw [← Except.ok.inj (hc'.symm.trans hc)]
    exact hdeclared

/-- Columns that a collection has are attached to it. -/
theorem run_define_existing (h : w.Sound watch) {c : Context} {columns : Columns}
    {collection : String} {found : Collection}
    (hfound : (w.memory c.store).collections.get? collection = some found)
    (hchecked : columns.checkSchema found.properties = .ok ()) (handle title : String) :
    ∃ t w', define handle title c columns (.existing collection) w = (.ok t, w') ∧
      t.columns = columns ∧ t.collection = found.ref := by
  let m := (w.memory c.store).noted [.readSchema collection]
  have hdone : Memory.findCollection collection m = .ok (found, m) := by
    unfold Memory.findCollection
    rw [show m.collections.get? collection = some found from hfound]
  have hread := Memory.perform_eq_ok (.readSchema collection)
    (Memory.findCollection collection) ((h.memory c.store).coherent.failure? _) hdone
  have hasked : asking (.bind title collection) ((storeAt c.store).readSchema collection) w =
      (.ok found, w.setMemory c.store m) := run_asking_ok (run_onStore hread)
  have hbind : Table.bind storeAt c.store title columns (.existing collection) w =
      (.ok found.ref, w.setMemory c.store m) := by
    refine (run_bind_ok hasked _).trans ?_
    rw [run_bind, run_checked, hchecked]
    rfl
  exact ⟨_, _, (run_bind_ok hbind _).trans (run_addTable handle title c columns _ _), rfl, rfl⟩

/-- A workspace with one store that holds collections. -/
def seededWith (store : String) (cs : List Collection) : Workspace :=
  empty.setMemory store (cs.foldl Memory.seed .empty)

theorem covered_seededWith {cs : List Collection} (hcs : Seeds cs) (store : String) :
    (seededWith store cs).Covered := by
  have hunused : ∀ name, ((seededWith store cs).memory name).Unused := by
    intro name
    unfold seededWith
    by_cases hname : name = store
    · rw [hname, memory_setMemory]
      exact Memory.unused_seeds hcs
    · rw [memory_setMemory_of_ne hname]
      exact Memory.unused_empty
  have hhas : ∀ t, ¬ (seededWith store cs).Has t := fun t ⟨_, hhandle⟩ => nomatch hhandle
  have hsound := Initial.sound ⟨hhas, fun name => (hunused name).coherent⟩
  refine ⟨hsound, fun {name source collection} hid => ?_, fun t ht => absurd ht (hhas t)⟩
  -- A table without columns can be watched over any data source.
  let t : Table := ⟨0, "", .empty, ⟨collection, source⟩, name, 0, {}⟩
  have huse : ∀ {u}, InUse (· = t) (seededWith store cs) u → u = t :=
    fun hu => hu.elim id fun hu => absurd hu (hhas _)
  refine ⟨(· = t), ⟨t, rfl, rfl, rfl⟩, fun name' => ⟨(hunused name').coherent, ?_,
    fun {source} _ => (hunused name').typed source⟩, ?_, ?_, ?_, ?_⟩
  · rintro source' ⟨u, rfl, rfl, rfl⟩
    exact ⟨collection, hid⟩
  · intro u hu
    obtain rfl := huse hu
    exact ⟨collection, hid⟩
  · intro u hu _ e he
    obtain rfl := huse hu
    exact nomatch he
  · intro u hu
    obtain rfl := huse hu
    exact Nat.zero_le _
  · intro u v hu hv _
    rw [huse hu, huse hv]

/-- From seeded collections on, the schema of a collection goes on declaring the columns of every
table that was made over it, so the columns can be attached again, and every property of every
record has the type that the schema of its data source declares. -/
theorem schemas_agree {store : String} {cs : List Collection} (hcs : Seeds cs)
    (hw : Runs (seededWith store cs) w) (hw' : Runs w w') :
    (∀ t, w.Has t → ∃ c,
      (w'.memory t.store).collections.get? t.collection.collection = some c ∧
      c.ref = t.collection ∧ t.columns.checkSchema c.properties = .ok () ∧
      ∀ handle title context, context.store = t.store → ∃ u w'',
        define handle title context t.columns (.existing t.collection.collection) w' =
          (.ok u, w'') ∧ u.columns = t.columns ∧ u.collection = t.collection) ∧
    ∀ name, ∀ s ∈ (w'.memory name).records, ∃ c,
      (w'.memory name).collectionOf s.source = .ok c ∧ s.record.Conforms c.properties := by
  have hcovered := (covered_seededWith hcs store).runs hw
  refine ⟨fun t ht => ?_, fun name s hs => (hcovered.runs hw').conforms hs⟩
  obtain ⟨c, hc, href, hchecked⟩ := hcovered.declares ht hw'
  refine ⟨c, hc, href, hchecked, fun handle title context hstore => ?_⟩
  rw [← href]
  have hfound : (w'.memory context.store).collections.get? c.ref.collection = some c := by
    rw [hstore, href, hc]
  exact run_define_existing (hcovered.runs hw').sound hfound hchecked handle title

/-- A shelf of titled books whose numbers the store assigns. -/
def shelf : Collection :=
  ⟨"shelf", "shelf-source", ⟨[("Name", .ofFields [("title", .ofFields [])]),
    ("Number", .ofFields [("unique_id", .ofFields [("prefix", .string "B")])])]⟩⟩

/-- A table over the shelf that has no column for the number. -/
def books : Table := ⟨1, "Books", ⟨[("name", .ofType .title "Name")]⟩, shelf.ref, "m", 0, {}⟩

def shelved : Workspace :=
  (define "books" "Books" ⟨"m", {}, 0⟩ books.columns (.existing "shelf")
    (seededWith "m" [shelf])).2

def oneBook : Workspace := (books.insert storeAt ⟨[("name", .string "Emma")]⟩ shelved).2

theorem schemas_agree_shelf :
    (∃ c, (oneBook.memory "m").collections.get? "shelf" = some c ∧
      books.columns.checkSchema c.properties = .ok ()) ∧
    ∃ s c, s ∈ (oneBook.memory "m").records ∧
      (oneBook.memory "m").collectionOf "shelf-source" = .ok c ∧
      s.record.properties.keys = ["Name", "Number"] ∧ s.record.Conforms c.properties := by
  have hseeds : Seeds [shelf] := by
    refine ⟨by decide, by decide, fun c hc n => ?_, fun c hc => ?_⟩
    · obtain rfl := List.mem_singleton.mp hc
      constructor
      all_goals
        intro heq
        have hfirst := congrArg (fun s => s.toList.head?) heq
        simp [shelf] at hfirst
    · obtain rfl := List.mem_singleton.mp hc
      unfold KeyMap.Sorted shelf
      decide
  have hbooks : shelved.Has books := ⟨"books", rfl⟩
  have hnames : ∀ w : Workspace, w.handles = ⟨[("books", books)]⟩ →
      ∀ t, w.Has t → t.columns.NamesDistinct := by
    rintro w hw t ⟨handle, hhandle⟩
    rw [hw] at hhandle
    have hmem := KeyMap.mem_of_get? hhandle
    obtain ⟨-, rfl⟩ := Prod.mk.inj (List.mem_singleton.mp hmem)
    unfold Columns.NamesDistinct
    decide
  have hdefined : Runs (seededWith "m" [shelf]) shelved :=
    .single ⟨.define _ _ _ _ _, hnames _ rfl⟩
  have hinserted : Runs shelved oneBook := .single ⟨.insert hbooks _, hnames _ rfl⟩
  obtain ⟨htables, hrecords⟩ := schemas_agree hseeds hdefined hinserted
  obtain ⟨c, hc, -, hchecked, -⟩ := htables books hbooks
  refine ⟨⟨c, hc, hchecked⟩, ?_⟩
  have hstored : ∃ s, (oneBook.memory "m").records = [s] ∧ s.source = "shelf-source" ∧
      s.record.properties.keys = ["Name", "Number"] := ⟨_, rfl, rfl, rfl⟩
  obtain ⟨s, hs, hsource, hkeys⟩ := hstored
  have hmem : s ∈ (oneBook.memory "m").records := hs ▸ List.mem_singleton_self s
  obtain ⟨c', hc', hconforms⟩ := hrecords "m" s hmem
  rw [hsource] at hc'
  exact ⟨s, c', hmem, hc', hkeys, hconforms⟩

end Workspace
end DocTables
