import DocTables.Proofs.Relation.Expanding
import DocTables.Proofs.Relation.Registry
import DocTables.Proofs.Table.Refusing

/-!
Histories of tables and their relations. What shows as the target of a relation column is what the
steps so far have named last, as long as it has a handle: nothing else is remembered or forgotten.
-/
namespace DocTables
open Outcome Effect

namespace Link
variable {l : Link} {links : List Link} {e : TableError}

/-- Why a link is refused. -/
def fault? (l : Link) : Option TableError :=
  if l.source.store ≠ l.target.store then some (.storesDiffer l.source.title l.target.title)
  else
    match l.source.columns.get? l.key with
    | none => some (.noColumn l.key)
    | some c => if c.type = .relation then none else some (.notRelation l.key)

theorem fromStore_of_fault? (h : l.fault? = some e) : e.fromStore = false := by
  unfold fault? at h
  split at h
  next => exact Option.some.inj h ▸ rfl
  next =>
    split at h
    next => exact Option.some.inj h ▸ rfl
    next =>
      split at h
      next => exact nomatch h
      next => exact Option.some.inj h ▸ rfl

theorem declaration_refused (h : l.fault? = some e) : l.declaration = .error e := by
  unfold fault? at h
  unfold declaration column Table.relationColumn Table.column? Columns.column?
  split at h
  next hstore =>
    rw [if_neg hstore, ← Option.some.inj h]
    rfl
  next hstore =>
    rw [if_pos (not_not.mp hstore)]
    split at h
    next hc =>
      rw [hc, ← Option.some.inj h]
      rfl
    next c hc =>
      rw [hc]
      split at h
      next => exact nomatch h
      next htype =>
        rw [← Option.some.inj h]
        simp [bind, Except.bind, htype]

/-- A link without fault declares the property of its column. -/
theorem declaration_accepted (h : l.fault? = none) :
    ∃ c, l.source.columns.get? l.key = some c ∧
      l.declaration =
        .ok (l.source, c.name, relationConfig l.target.collection.source l.sides) := by
  unfold fault? at h
  unfold declaration column Table.relationColumn Table.column? Columns.column?
  split at h
  next => exact nomatch h
  next hstore =>
    rw [if_pos (not_not.mp hstore)]
    split at h
    next => exact nomatch h
    next c hc =>
      split at h
      next htype =>
        refine ⟨c, hc, ?_⟩
        simp [hc, bind, Except.bind, htype, pure, Except.pure]
      next => exact nomatch h

theorem updates_refused (h : links.findSome? fault? = some e) : updates links = .error e := by
  have hdeclarations : links.mapM declaration = .error e :=
    mapM_eq_error (fun l e => declaration_refused)
      (fun l hl => (declaration_accepted hl).imp' _ fun _ hc => hc.2) h
  rw [updates, hdeclarations]
  rfl

theorem updates_accepted (h : links.findSome? fault? = none) :
    ∃ us, updates links = .ok us := by
  obtain ⟨ds, hds⟩ := mapM_total fun l hl =>
    (declaration_accepted (List.findSome?_eq_none_iff.mp h l hl)).imp' _ fun _ hc => hc.2
  exact ⟨_, bind_eq_ok.mpr ⟨ds, hds, rfl⟩⟩

end Link

namespace Workspace
variable {w w' : Workspace} {s source target : Table} {key : String} {links : List Link}
  {r : Except TableError Unit} {e : TableError}

theorem run_register (n : Nat) (source : Table) (key : String) (target : Table) (w : Workspace) :
    register n source key target w =
      match source.relationColumn key with
      | .ok _ => (.ok (), w.addTarget n source key target)
      | .error e => (.error e, w) := by
  rw [register, run_bind, run_checked]
  cases source.relationColumn key <;> rfl

theorem run_link_refused (h : links.findSome? Link.fault? = some e) (w : Workspace) :
    link links w = (.error e, w) := by
  rw [link, run_bind, run_checked, Link.updates_refused h]

theorem run_link_accepted {us : List (Table × Properties)} (h : Link.updates links = .ok us)
    (w : Workspace) : link links w = Link.send storeAt us (w.setTargets links) := by
  rw [link, run_bind, run_checked, h]
  rfl

/-- The answer of a step that has passed its checks. A store may have failed it afterwards. -/
def passed : Except TableError Unit → Bool
  | .ok _ => true
  | .error e => e.fromStore

theorem fromStore_of_relationColumn (h : s.relationColumn key = .error e) :
    e.fromStore = false := by
  unfold Table.relationColumn Table.column? Columns.column? at h
  cases hc : s.columns.get? key with
  | none =>
    rw [hc] at h
    exact Except.error.inj h ▸ rfl
  | some c =>
    rw [hc] at h
    by_cases htype : c.type = .relation
    · simp [bind, Except.bind, htype, pure, Except.pure] at h
    · simp only [bind, Except.bind, htype, if_false] at h
      exact Except.error.inj h ▸ rfl

theorem fromStore_of_send {us : List (Table × Properties)}
    (h : Link.send storeAt us w = (.error e, w')) : e.fromStore = true := by
  have hfails : FailsAs (fun _ : Workspace => True) (fun e _ => e.fromStore = true)
      (Link.send storeAt us) := by
    refine .forM (fun u w _ e w' h => ?_) (fun _ _ _ => trivial) us
    obtain ⟨cause, -, rfl⟩ := asking_eq_error h
    rfl
  exact hfails w trivial e w' h

theorem register_outcome {n : Nat} (h : register n source key target w = (r, w')) :
    (passed r = true → w' = w.addTarget n source key target) ∧ (passed r = false → w' = w) := by
  rw [run_register] at h
  cases hcolumn : source.relationColumn key with
  | ok c =>
    rw [hcolumn] at h
    obtain ⟨rfl, rfl⟩ := Prod.mk.inj h
    exact ⟨fun _ => rfl, nofun⟩
  | error e =>
    rw [hcolumn] at h
    obtain ⟨rfl, rfl⟩ := Prod.mk.inj h
    exact ⟨fun hp => (nomatch (fromStore_of_relationColumn hcolumn).symm.trans hp), fun _ => rfl⟩

/-- A table is related by a registration in its own relations. -/
theorem relate_eq_register (source : Table) (key : String) (target : Table) :
    relate source key target = register source.relations source key target := rfl

/-- Relating two tables is a link that declares nothing. -/
theorem relate_outcome (h : relate source key target w = (r, w')) :
    (passed r = true → w' = w.setTargets [⟨source, key, target, .oneWay⟩]) ∧
    (passed r = false → w' = w) := by
  rw [relate_eq_register] at h
  exact register_outcome h

/-- A link registers its targets once it has passed its checks, and changes nothing before. -/
theorem link_outcome (h : link links w = (r, w')) :
    (passed r = true → SameTables (w.setTargets links) w') ∧ (passed r = false → w' = w) := by
  cases hfault : links.findSome? Link.fault? with
  | some e =>
    rw [run_link_refused hfault] at h
    obtain ⟨rfl, rfl⟩ := Prod.mk.inj h
    obtain ⟨l, -, hl⟩ := List.exists_of_findSome?_eq_some hfault
    exact ⟨fun hp => (nomatch (Link.fromStore_of_fault? hl).symm.trans hp), fun _ => rfl⟩
  | none =>
    obtain ⟨us, hus⟩ := Link.updates_accepted hfault
    rw [run_link_accepted hus] at h
    have hsame := (keptByCalls_sameTables (w.setTargets links)).send us _ (.refl _)
    rw [h] at hsame
    refine ⟨fun _ => hsame, fun hp => ?_⟩
    cases r with
    | ok u => exact nomatch hp
    | error e => exact nomatch (fromStore_of_send h).symm.trans hp

/-- What a step asked for and how it was answered, where it was about relations. -/
inductive Event where
  | related (links : List Link) (answer : Except TableError Unit)
  | other

/-- A step on tables, or anything that happens to a store. Tables are defined in open contexts and
used through their handles. -/
inductive Turn (w : Workspace) : Event → Workspace → Prop
  | openContext (name store : String) (limits : Limits) :
      Turn w .other (w.openContext name store limits)
  | context (name store : String) : Turn w .other (context name store w).2
  | define (name handle title : String) {c : Context} (hc : w.contexts.get? name = some c)
      (columns : Columns) (binding : Binding) :
      Turn w .other (define handle title c columns binding w).2
  | introspect (name handle title : String) {c : Context} (hc : w.contexts.get? name = some c)
      (collection : String) : Turn w .other (introspect handle title c collection w).2
  | clone (handle : String) {t : Table} (ht : w.Has t) : Turn w .other (w.setHandle handle t)
  | drop (handle : String) : Turn w .other (w.dropHandle handle)
  | relate {source target : Table} (key : String) (hs : w.Has source) (ht : w.Has target)
      {r : Except TableError Unit} {w' : Workspace} (h : relate source key target w = (r, w')) :
      Turn w (.related [⟨source, key, target, .oneWay⟩] r) w'
  | link {links : List Link} (hl : ∀ l ∈ links, w.Has l.source ∧ w.Has l.target)
      {r : Except TableError Unit} {w' : Workspace} (h : link links w = (r, w')) :
      Turn w (.related links r) w'
  | store (name : String) (m : Memory) : Turn w .other (w.setMemory name m)

/-- A workspace with the steps that led to it, oldest first. -/
inductive History : Workspace → List Event → Prop
  | start : History empty []
  | turn {w w' : Workspace} {past : List Event} {e : Event} (h : History w past)
      (ht : Turn w e w') : History w' (past ++ [e])

/-- The relations that an event names, if its answer counts. -/
def Event.named (counts : Except TableError Unit → Bool) : Event → List Link
  | related links answer => if counts answer then links else []
  | other => []

/-- A step opens a context, makes a table, adds or drops a handle, or registers the relations that
it names; all else that it does leaves the tables as they are. -/
theorem Turn.holds {P : List Link → Workspace → Prop} {e : Event} (ht : Turn w e w')
    (hstay : P [] w) (hopen : ∀ name store limits, P [] (w.openContext name store limits))
    (hmake : ∀ name handle title c columns ref w₁, w.contexts.get? name = some c →
      SameTables w w₁ → P [] (addTable handle title c columns ref w₁).2)
    (hclone : ∀ handle t, w.Has t → P [] (w.setHandle handle t))
    (hdrop : ∀ handle, P [] (w.dropHandle handle))
    (hlinks : ∀ links, (∀ l ∈ links, w.Has l.source ∧ w.Has l.target) →
      P links (w.setTargets links))
    (hsame : ∀ links w₁ w₂, P links w₁ → SameTables w₁ w₂ → P links w₂) :
    P (e.named passed) w' := by
  cases ht with
  | openContext name store limits => exact hopen name store limits
  | context name store =>
    unfold Workspace.context
    split
    · exact hstay
    · exact hopen name store {}
  | @define name handle title c hc columns binding =>
    have hbind := (keptByCalls_sameTables w).bind c.store title columns binding
    exact holds_addTable (I := P []) (hbind w (.refl w)) (fun w₁ => hsame [] w w₁ hstay)
      fun w₁ columns ref => hmake name handle title c columns ref w₁ hc
  | @introspect name handle title c hc collection =>
    have hread : Keeps (SameTables w)
        (asking (.introspect collection) ((storeAt c.store).readSchema collection)) :=
      .asking ((keptByCalls_sameTables w).readSchema _ _)
    exact holds_addTable (I := P []) (hread w (.refl w)) (fun w₁ => hsame [] w w₁ hstay)
      fun w₁ columns ref => hmake name handle title c columns ref w₁ hc
  | clone handle ht => exact hclone handle _ ht
  | drop handle => exact hdrop handle
  | relate key hs ht hrun =>
    obtain ⟨hpassed, hrefused⟩ := relate_outcome hrun
    simp only [Event.named]
    split
    next hp =>
      rw [hpassed hp]
      exact hlinks _ (by simpa using ⟨hs, ht⟩)
    next hp =>
      rw [hrefused (Bool.eq_false_iff.mpr hp)]
      exact hstay
  | link hl hrun =>
    obtain ⟨hpassed, hrefused⟩ := link_outcome hrun
    simp only [Event.named]
    split
    next hp => exact hsame _ _ _ (hlinks _ hl) (hpassed hp)
    next hp =>
      rw [hrefused (Bool.eq_false_iff.mpr hp)]
      exact hstay
  | store name m => exact hsame [] w _ hstay ⟨rfl, rfl, rfl, rfl⟩

/-- All relations that were named, oldest first. -/
def named (counts : Except TableError Unit → Bool) (past : List Event) : List Link :=
  past.flatMap (Event.named counts)

/-- A workspace in which relations show as the named links say. -/
structure Recorded (w : Workspace) (links : List Link) : Prop where
  identified : w.Identified
  wired : w.Wired
  bounded : ∀ l ∈ links, l.source.id ≤ w.tables ∧ l.target.id ≤ w.tables
  shown : ∀ s, w.Has s → ∀ key, w.target? s key = (lastTarget s key links).filter w.hasHandle

namespace Recorded

theorem congr (h : w.Recorded links) (hs : SameTables w w') : w'.Recorded links := by
  have hknown : ∀ t, w'.Known t → w.Known t := by
    rintro t (ht | ⟨r, hr, hholds⟩)
    · exact .inl (hs.has.mp ht)
    · exact .inr ⟨r, hs.relations ▸ hr, hholds⟩
  refine ⟨h.identified.congr hs.tables hknown, h.wired.congr hs, fun l hl => ?_,
    fun s hhas key => ?_⟩
  · rw [hs.tables]
    exact h.bounded l hl
  · rw [hs.target?, hs.hasHandle]
    exact h.shown s (hs.has.mp hhas) key

/-- What stays registered shows as before, where handles are only lost. A new table may be added: it
is not a target yet and has none. -/
theorem onward (h : w.Recorded links) (hi : w'.Identified) (hw : w'.Wired)
    (htables : w.tables ≤ w'.tables)
    (hlive : ∀ t, t.id ≤ w.tables → w'.hasHandle t = true → w.hasHandle t = true)
    (hold : ∀ s, w'.Has s → w.Has s ∨ w.tables < s.id)
    (hregistered : ∀ s, w'.Has s → ∀ key, w'.registered? s key = w.registered? s key) :
    w'.Recorded links := by
  have hshrink : ∀ o : Option Table, (∀ t, o = some t → t.id ≤ w.tables) →
      (o.filter w.hasHandle).filter w'.hasHandle = o.filter w'.hasHandle := by
    rintro (_ | t) hbound
    · rfl
    · cases ht : w'.hasHandle t with
      | true => simp [Option.filter, ht, hlive t (hbound t rfl) ht]
      | false => by_cases hw : w.hasHandle t = true <;> simp [Option.filter, ht, hw]
  refine ⟨hi, hw, fun l hl => ?_, fun s hs key => ?_⟩
  · obtain ⟨hsource, htarget⟩ := h.bounded l hl
    exact ⟨hsource.trans htables, htarget.trans htables⟩
  · rw [target?_eq, hregistered s hs key]
    rcases hold s hs with hhas | hnew
    · have hshown := h.shown s hhas key
      rw [target?_eq] at hshown
      rw [← hshrink _ fun t ht => h.identified.numbered t (known_of_registered? ht), hshown]
      refine hshrink _ fun t ht => ?_
      obtain ⟨l, hl, -, -, rfl⟩ := mem_of_lastTarget ht
      exact (h.bounded l hl).2
    · have hnone : lastTarget s key links = none :=
        lastTarget_eq_none fun l hl ⟨hid, _⟩ => by
          have hle := (h.bounded l hl).1
          omega
      rw [registered?, h.wired.unused _ _ hnew, hnone]
      rfl

theorem openContext (h : w.Recorded links) (name store : String) (limits : Limits) :
    (w.openContext name store limits).Recorded links := by
  refine h.onward (h.identified.openContext name store limits)
    (h.wired.openContext name store limits) le_rfl (fun _ _ ht => ht) (fun _ hs => .inl hs)
    fun s hs key => ?_
  have hplaced : s.relations < w.relations.length := h.wired.placed s hs
  unfold registered? related Workspace.openContext
  rw [List.getElem?_append_left hplaced]

theorem addTable (h : w.Recorded links) (handle title : String) {c : Context}
    (hc : c.relations < w.relations.length) (columns : Columns) (ref : CollectionRef) :
    (addTable handle title c columns ref w).2.Recorded links := by
  have hidentified := h.identified.addTable handle title c columns ref
  rw [run_addTable] at hidentified ⊢
  have htables : (w.withTable handle (w.nextTable title c columns ref)).tables = w.tables + 1 :=
    (setHandle_fields handle _ _).2.2
  refine h.onward hidentified ?_ (by rw [htables]; omega) (fun t ht hlive => ?_)
    (fun s hs => ?_) fun s hs key => ?_
  · exact h.wired.withHandle handle hc (Nat.le_succ _)
  · rcases hasHandle_setHandle hlive with hid | hlive
    · have hnext : t.id = w.tables + 1 := hid
      omega
    · exact hlive
  · rcases has_setHandle hs with rfl | hs
    · exact .inr (Nat.lt_succ_self _)
    · exact .inl hs
  · exact registered?_setHandle hs key

theorem clone (h : w.Recorded links) (handle : String) (ht : w.Has s) :
    (w.setHandle handle s).Recorded links := by
  have htables : (w.setHandle handle s).tables = w.tables := (setHandle_fields handle s w).2.2
  refine h.onward (h.identified.setHandle handle (.inl ht)) ?_ htables.ge (fun u _ hlive => ?_)
    (fun u hu => ?_) fun u hu key => registered?_setHandle hu key
  · exact h.wired.withHandle handle (h.wired.placed s ht) le_rfl
  · rcases hasHandle_setHandle hlive with hid | hlive
    · obtain ⟨v, hv, hs⟩ := hasHandle_iff.mp (hasHandle_of_has ht)
      exact hasHandle_iff.mpr ⟨v, hv, hs.trans hid.symm⟩
    · exact hlive
  · rcases has_setHandle hu with rfl | hu
    · exact .inl ht
    · exact .inl hu

theorem drop (h : w.Recorded links) (handle : String) : (w.dropHandle handle).Recorded links := by
  have htables := (dropHandle_fields handle w).2
  exact h.onward (h.identified.step (.drop handle)) (h.wired.dropHandle handle) htables.ge
    (fun t _ hlive => hasHandle_dropHandle hlive) (fun s hs => .inl (has_dropHandle hs))
    fun s hs key => registered?_dropHandle hs key

/-- Further links come after those that were named before. -/
theorem setTargets (h : w.Recorded links) {later : List Link}
    (hlater : ∀ l ∈ later, w.Has l.source ∧ w.Has l.target) :
    (w.setTargets later).Recorded (links ++ later) := by
  obtain ⟨hhandles, htables, -⟩ := setTargets_fields later w
  have hsource : ∀ l ∈ later, l.source.id ≤ w.tables := fun l hl =>
    h.identified.numbered _ (.inl (hlater l hl).1)
  have hhas : ∀ t, (w.setTargets later).Has t ↔ w.Has t := fun t => by
    unfold Has
    rw [hhandles]
  have hlive : (w.setTargets later).hasHandle = w.hasHandle := by
    funext t
    unfold hasHandle
    rw [hhandles]
  refine ⟨h.identified.setTargets fun l hl => (hlater l hl).2, h.wired.setTargets hsource,
    fun l hl => ?_, fun s hs key => ?_⟩
  · rw [htables]
    rcases List.mem_append.mp hl with hl | hl
    · exact h.bounded l hl
    · exact ⟨hsource l hl, h.identified.numbered _ (.inl (hlater l hl).2)⟩
  · have hs' := (hhas s).mp hs
    rw [target?_setTargets h.wired h.identified hlater hs', h.shown s hs', hlive,
      lastTarget_append]
    cases hlast : lastTarget s key later with
    | none => rfl
    | some t =>
      obtain ⟨l, hl, -, -, rfl⟩ := mem_of_lastTarget hlast
      simp [Option.filter, hasHandle_of_has (hlater l hl).2]

/-- A step adds the relations that it names, if it passes its checks. -/
theorem turn (h : w.Recorded links) {e : Event} (ht : Turn w e w') :
    w'.Recorded (links ++ e.named passed) := by
  have hnone : w.Recorded (links ++ []) := by rwa [List.append_nil]
  apply ht.holds (P := fun later w' => w'.Recorded (links ++ later)) hnone
  · exact fun name store limits => hnone.openContext name store limits
  · intro name handle title c columns ref w₁ hc hs
    have hplaced : c.relations < w₁.relations.length := by
      rw [hs.relations]
      exact h.wired.contexts name c hc
    exact (hnone.congr hs).addTable handle title hplaced columns ref
  · exact fun handle t ht => hnone.clone handle ht
  · exact fun handle => hnone.drop handle
  · exact fun later hlater => h.setTargets hlater
  · exact fun later w₁ w₂ h₁ hs => h₁.congr hs

end Recorded

theorem recorded_empty : empty.Recorded [] := by
  have hhas : ∀ t, ¬ empty.Has t := fun t ⟨_, hhandle⟩ => nomatch hhandle
  refine ⟨Reachable.identified .refl, ⟨fun t ht => absurd ht (hhas t), nofun, fun _ _ => ?_,
    fun _ _ _ => rfl⟩, nofun, fun s hs => absurd hs (hhas s)⟩
  exact List.Pairwise.nil

theorem History.recorded {past : List Event} (h : w.History past) :
    w.Recorded (named passed past) := by
  induction h with
  | start => exact recorded_empty
  | turn _ ht ih =>
    have hnamed := ih.turn ht
    unfold named at hnamed ⊢
    rwa [List.flatMap_append, List.flatMap_singleton]

/-- A fetch fails over the store or over the record, never over a relation. -/
theorem fetch_ne_noTarget (w : Workspace) (r : Reading) (key : String) :
    Reading.fetch w r ≠ .error (.noTarget key) := by
  intro h
  rcases hrun : r.table.row storeAt r.record w with ⟨x, w'⟩
  have herror : r.table.row storeAt r.record w = (.error (.noTarget key), w') := by
    rw [hrun, ← h, Reading.fetch, hrun]
  rcases run_bind_eq_error herror with hasking | ⟨record, w₁, -, hdecode⟩
  · obtain ⟨cause, -, heq⟩ := asking_eq_error hasking
    cases heq
  · have hrecord := Columns.ofRecord_of_decode (Prod.mk.inj hdecode).1
    cases hrecord

/-- A relation column by itself is refused just when it shows no target. -/
theorem expand_alone {c : Column} (hc : s.columns.get? key = some c) (htype : c.type = .relation)
    (rows : List DecodedRecord) (how : Rendering) :
    (expand s rows (.ofList [(key, how)]) w).1 = .error (.noTarget key) ↔
      w.target? s key = none := by
  have hrefusal : w.refusal? s key =
      if (w.target? s key).isNone then some (.noTarget key) else none := by
    simp [refusal?, hc, htype]
  have hkeys : (KeyMap.ofList [(key, how)]).keys.findSome? (w.refusal? s) = w.refusal? s key := by
    change [key].findSome? (w.refusal? s) = _
    cases hr : w.refusal? s key <;> simp [hr]
  have hexpand : expand s rows (.ofList [(key, how)]) w =
      s.expand storeAt (w.target? s) rows (.ofList [(key, how)]) w := rfl
  rw [hexpand]
  unfold Table.expand
  constructor
  · intro h
    by_contra hsome
    have htotal : ∃ xs, s.expansions (w.target? s) (.ofList [(key, how)]) = .ok xs :=
      expansions_total (by rw [hkeys, hrefusal, if_neg (by simpa using hsome)])
    obtain ⟨xs, hxs⟩ := htotal
    rw [run_bind, run_checked, hxs] at h
    simp only at h
    rcases hall : Reading.all storeAt s.limits.readers (Reading.ofExpansions xs rows) w with
      ⟨e | results, w₁⟩
    · obtain ⟨-, -, hfailed⟩ := Reading.all_fetched w s.limits.readers
        (Reading.ofExpansions xs rows)
      rw [hall] at hfailed
      rw [run_bind, hall] at h
      obtain ⟨r, -, hfetch⟩ := hfailed e rfl
      rw [Except.error.inj h] at hfetch
      exact fetch_ne_noTarget w r key hfetch
    · rw [run_bind, hall] at h
      exact nomatch h
  · intro hnone
    have herror : s.expansions (w.target? s) (.ofList [(key, how)]) = .error (.noTarget key) :=
      expansions_eq_error (by rw [hkeys, hrefusal, hnone]; rfl)
    rw [run_bind, run_checked, herror]

/-- The targets of a table with a handle are those that its columns show, in key order. -/
theorem mem_ofSource (hw : w.Wired) {t : Table} :
    (key, t) ∈ (w.related s.relations).ofSource w.hasHandle s.id ↔ w.target? s key = some t := by
  have hsorted := (hw.sorted s.relations s.id).filter w.hasHandle
  have hget : w.target? s key =
      (((w.related s.relations).targets s.id).filter w.hasHandle).get? key :=
    ((hw.sorted s.relations s.id).get?_filter w.hasHandle key).symm
  rw [hget]
  exact ⟨fun h => hsorted.get?_of_mem h, KeyMap.mem_of_get?⟩

/-- After any history, the target that a column shows is the one that was named last by a step that
passed its checks, while that target has a handle. The targets of a table are listed by column key,
and a relation column by itself cannot be expanded just when it shows none. -/
theorem History.target?_settles {past : List Event} (h : w.History past) (hs : w.Has s) :
    (∀ key t, w.target? s key = some t ↔
      lastTarget s key (named passed past) = some t ∧ w.hasHandle t = true) ∧
    (∀ key t, (key, t) ∈ (w.related s.relations).ofSource w.hasHandle s.id ↔
      w.target? s key = some t) ∧
    ((w.related s.relations).ofSource w.hasHandle s.id).Pairwise (fun e f => e.1 < f.1) ∧
    ∀ key c, s.columns.get? key = some c → c.type = .relation → ∀ rows how,
      (expand s rows (.ofList [(key, how)]) w).1 = .error (.noTarget key) ↔
        w.target? s key = none := by
  have hrecorded := h.recorded
  refine ⟨fun key t => ?_, fun key t => mem_ofSource hrecorded.wired, ?_,
    fun key c hc htype rows how => expand_alone hc htype rows how⟩
  · rw [hrecorded.shown s hs key, Option.filter_eq_some_iff]
  · exact (hrecorded.wired.sorted s.relations s.id).filter w.hasHandle

/-- A table without columns, made after the chapters. -/
def notes : Table := ⟨2, "Notes", .empty, ⟨"new-col-2", "new-ds-2"⟩, "m", 0, {}⟩

/-- The chapters by themselves. -/
def chaptersAlone : Workspace :=
  (define "chapters" "Chapters" ⟨"m", {}, 0⟩ chapters.columns (.under "page")
    (empty.openContext "c" "m" {})).2

theorem history_chaptersAlone : chaptersAlone.History [.other, .other] := by
  have hopened : (empty.openContext "c" "m" {}).History [.other] :=
    .turn .start (.openContext "c" "m" {})
  exact hopened.turn (.define "c" "chapters" "Chapters" rfl chapters.columns (.under "page"))

/-- The chapters related to themselves, with the notes beside them. -/
def chaptersNoted : Workspace :=
  (define "notes" "Notes" ⟨"m", {}, 0⟩ .empty (.under "page") chaptersRelated).2

theorem history_chaptersNoted :
    chaptersNoted.History
      [.other, .other, .related [⟨chapters, "next", chapters, .oneWay⟩] (.ok ()), .other] := by
  have hhas : chaptersAlone.Has chapters := ⟨"chapters", rfl⟩
  have hrelated := history_chaptersAlone.turn (.relate "next" hhas hhas (r := .ok ()) rfl)
  exact hrelated.turn (.define "c" "notes" "Notes" rfl .empty (.under "page"))

/-- A target that has lost its handle is not replaced by the one before it. -/
theorem target?_settles_notes :
    ((chaptersNoted.setTarget chapters "next" notes).dropHandle "notes").target? chapters "next" =
      none := by
  have hhas : chaptersNoted.Has chapters ∧ chaptersNoted.Has notes :=
    ⟨⟨"chapters", rfl⟩, ⟨"notes", rfl⟩⟩
  have hrelated := history_chaptersNoted.turn (.relate "next" hhas.1 hhas.2 (r := .ok ()) rfl)
  have hdropped := hrelated.turn (.drop "notes")
  have hsettled := (hdropped.target?_settles (s := chapters) ⟨"chapters", rfl⟩).1 "next"
  have hgone : ((chaptersNoted.setTarget chapters "next" notes).dropHandle "notes").hasHandle
      notes = false := rfl
  by_contra hsome
  obtain ⟨t, ht⟩ := Option.ne_none_iff_exists'.mp hsome
  obtain ⟨hlast, hlive⟩ := (hsettled t).mp ht
  obtain rfl : notes = t := Option.some.inj hlast
  exact nomatch hgone.symm.trans hlive

/-- The chapters in a store that does not extend schemas. -/
def chaptersOffline : Workspace :=
  chaptersAlone.setMemory "m" ((chaptersAlone.memory "m").failWith .extendSchema "offline")

/-- A link that the store fails has already registered its target, so steps that succeed do not
account for all that shows. -/
theorem not_forall_last_succeeded :
    ¬ ∀ (w : Workspace) (past : List Event) (s : Table) (key : String) (t : Table),
      w.History past → w.Has s → (w.target? s key = some t ↔
        lastTarget s key (named Except.isOk past) = some t ∧ w.hasHandle t = true) := by
  intro hall
  have hoffline : chaptersOffline.History [.other, .other, .other] :=
    history_chaptersAlone.turn (.store "m" _)
  have hhas : chaptersOffline.Has chapters := ⟨"chapters", rfl⟩
  have hlinks : ∀ l ∈ [(⟨chapters, "next", chapters, .oneWay⟩ : Link)],
      chaptersOffline.Has l.source ∧ chaptersOffline.Has l.target := by
    simpa using hhas
  have hlinked := hoffline.turn (.link hlinks (r := .error (.storeFailed (.link "Chapters") _)) rfl)
  have hshown := (hall _ _ chapters "next" chapters hlinked ⟨"chapters", rfl⟩).mp rfl
  exact nomatch hshown.1

end Workspace
end DocTables
