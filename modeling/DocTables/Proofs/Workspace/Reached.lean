import Mathlib.Logic.Relation
import DocTables.Proofs.Workspace.Definitions

/-!
Workspaces that are reached by operations, in any number and order, done or failed. All of them are
sound if the first one is.
-/
namespace DocTables.Workspace
open Effect

/-- One operation. Tables are used through their handles, and an update of records by their ids is
for records of the data source of its table. -/
inductive Step (w : Workspace) : Workspace → Prop
  | openContext (name store : String) (limits : Limits) : Step w (w.openContext name store limits)
  | context (name store : String) : Step w (context name store w).2
  | define (handle title : String) (c : Context) (columns : Columns) (binding : Binding) :
      Step w (define handle title c columns binding w).2
  | introspect (handle title : String) (c : Context) (collection : String) :
      Step w (introspect handle title c collection w).2
  | clone (handle : String) {t : Table} (ht : w.Has t) : Step w (w.setHandle handle t)
  | drop (handle : String) : Step w (w.dropHandle handle)
  | relate {source target : Table} (key : String) (hs : w.Has source) (ht : w.Has target) :
      Step w (relate source key target w).2
  | link (links : List Link) (hl : ∀ l ∈ links, w.Has l.source ∧ w.Has l.target) :
      Step w (link links w).2
  | insert {t : Table} (ht : w.Has t) (row : Row) : Step w (t.insert storeAt row w).2
  | insertAll {t : Table} (ht : w.Has t) (rows : List Row) : Step w (t.insertAll storeAt rows w).2
  | row {t : Table} (ht : w.Has t) (id : String) : Step w (t.row storeAt id w).2
  | select {t : Table} (ht : w.Has t) (s : Selection) : Step w (select t s w).2
  | selectRest {t : Table} (ht : w.Has t) (s : Selection) : Step w (selectRest t s w).2
  | expand {t : Table} (ht : w.Has t) (rows : List DecodedRecord) (spec : KeyMap Rendering) :
      Step w (expand t rows spec w).2
  | update {t : Table} (ht : w.Has t) (row : Row) (p : UpdatePlan)
      (hp : ∀ ids ∈ p.targets.records, OwnsAll t ids w) : Step w (t.update storeAt row p w).2
  | archive {t : Table} (ht : w.Has t) (targets : Targets) : Step w (t.archive storeAt targets w).2
  | restore {t : Table} (ht : w.Has t) (targets : Targets) : Step w (t.restore storeAt targets w).2

/-- Any number of operations. -/
abbrev Reaches : Workspace → Workspace → Prop := Relation.ReflTransGen Step

variable {watch : Table → Prop} {w w' : Workspace}

section Kept
variable {I : Workspace → Prop}

/-- What calls keep is kept by a step if it survives contexts, handles and targets. Only the steps
that make a table are left. -/
theorem KeptByWrites.step (h : KeptByWrites I) (hI : I w)
    (hopen : ∀ name store limits, I (w.openContext name store limits))
    (hclone : ∀ handle t, w.Has t → I (w.setHandle handle t))
    (hdrop : ∀ handle, I (w.dropHandle handle))
    (htargets : ∀ links, (∀ l ∈ links, w.Has l.source ∧ w.Has l.target) → I (w.setTargets links))
    (hs : w.Step w') :
    I w' ∨ (∃ handle title c columns binding,
      w' = (Workspace.define handle title c columns binding w).2) ∨
      ∃ handle title c collection, w' = (Workspace.introspect handle title c collection w).2 := by
  cases hs with
  | openContext name store limits => exact .inl (hopen name store limits)
  | context name store =>
    unfold context
    split
    · exact .inl hI
    · exact .inl (hopen name store {})
  | define handle title c columns binding =>
    exact .inr (.inl ⟨handle, title, c, columns, binding, rfl⟩)
  | introspect handle title c collection =>
    exact .inr (.inr ⟨handle, title, c, collection, rfl⟩)
  | clone handle ht => exact .inl (hclone handle _ ht)
  | drop handle => exact .inl (hdrop handle)
  | @relate source target key hs ht =>
    refine .inl (holds_bind hI fun c w₁ hc => ?_)
    obtain ⟨-, rfl⟩ := Prod.mk.inj hc
    exact htargets [⟨source, key, target, .oneWay⟩] (by simpa using ⟨hs, ht⟩)
  | link links hl =>
    refine .inl (holds_bind hI fun updates w₁ hupdates => ?_)
    obtain ⟨-, rfl⟩ := Prod.mk.inj hupdates
    have hset := htargets links hl
    refine holds_bind hset fun _ w₂ hmodify => ?_
    obtain ⟨-, rfl⟩ := Prod.mk.inj hmodify
    exact h.send updates _ hset
  | @insert t ht row => exact .inl (h.insert t row w hI)
  | @insertAll t ht rows => exact .inl (h.insertAll t rows w hI)
  | @row t ht id => exact .inl (h.row t id w hI)
  | @select t ht s =>
    have hkeeps : Keeps I (Workspace.select t s) :=
      Keeps.get.bind fun w₁ => h.select t (w₁.target? t) s
    exact .inl (hkeeps w hI)
  | @selectRest t ht s =>
    have hkeeps : Keeps I (Workspace.selectRest t s) :=
      Keeps.get.bind fun w₁ =>
        (h.selectPages t (w₁.target? t) _ s).bind fun (rows, _) => .pure rows
    exact .inl (hkeeps w hI)
  | @expand t ht rows spec =>
    have hkeeps : Keeps I (Workspace.expand t rows spec) :=
      Keeps.get.bind fun w₁ => h.expand t (w₁.target? t) rows spec
    exact .inl (hkeeps w hI)
  | @update t ht row p hp => exact .inl (h.update t row p w hI)
  | @archive t ht targets => exact .inl (h.moveAll t true targets w hI)
  | @restore t ht targets => exact .inl (h.moveAll t false targets w hI)

end Kept

theorem Sound.openContext (h : w.Sound watch) (name store : String) (limits : Limits) :
    (w.openContext name store limits).Sound watch := h.congr rfl rfl fun _ ht => ht

theorem Sound.step (h : w.Sound watch) (hs : w.Step w') : w'.Sound watch := by
  cases hs with
  | openContext name store limits => exact h.openContext name store limits
  | context name store =>
    unfold context
    split
    · exact h
    · exact h.openContext name store {}
  | define handle title c columns binding => exact h.define handle title c columns binding
  | introspect handle title c collection => exact h.introspect handle title c collection
  | clone handle ht => exact h.setHandle handle ht
  | drop handle => exact h.dropHandle handle
  | relate key => exact h.relate _ key _
  | link links hl => exact h.link fun l hmem => .inr (hl l hmem).1
  | @insert t ht row => exact (keeps_insert (.inr ht) row w h.follows).sound
  | @insertAll t ht rows => exact (keeps_insertAll (.inr ht) rows w h.follows).sound
  | @row t ht id => exact (keptByReads_follows.row t id w h.follows).sound
  | @select t ht s =>
    have hkeeps : Keeps (Follows watch w) (select t s) :=
      Keeps.get.bind fun w₁ => keptByReads_follows.select t (w₁.target? t) s
    exact (hkeeps w h.follows).sound
  | @selectRest t ht s =>
    have hkeeps : Keeps (Follows watch w) (selectRest t s) :=
      Keeps.get.bind fun w₁ =>
        (keptByReads_follows.selectPages t (w₁.target? t) _ s).bind fun (rows, _) => .pure rows
    exact (hkeeps w h.follows).sound
  | @expand t ht rows spec =>
    have hkeeps : Keeps (Follows watch w) (expand t rows spec) :=
      Keeps.get.bind fun w₁ => keptByReads_follows.expand t (w₁.target? t) rows spec
    exact (hkeeps w h.follows).sound
  | @update t ht row p hp => exact h.update (.inr ht) row hp
  | @archive t ht targets => exact (keeps_moveAll t true targets w h.follows).sound
  | @restore t ht targets => exact (keeps_moveAll t false targets w h.follows).sound

theorem Sound.reaches (h : w.Sound watch) (hr : Reaches w w') : w'.Sound watch := by
  induction hr with
  | refl => exact h
  | tail _ hs ih => exact ih.step hs

/-- A workspace without tables, over stores in which nothing is out of place. -/
structure Initial (w : Workspace) : Prop where
  handles : ∀ t, ¬ w.Has t
  memory : ∀ name, (w.memory name).Coherent

theorem Initial.sound (h : w.Initial) : w.Sound fun _ => False := by
  have hunused : ∀ t, ¬ InUse (fun _ => False) w t := by
    rintro t (hf | ht)
    · exact hf
    · exact h.handles t ht
  refine ⟨?_, ?_, ?_, ?_, ?_⟩
  · intro name
    exact ⟨h.memory name, fun ⟨_, hf, _⟩ => hf.elim, fun ⟨_, hf, _⟩ => hf.elim⟩
  · exact fun t ht => absurd ht (hunused t)
  · exact fun t ht => absurd ht (hunused t)
  · exact fun t ht => absurd ht (hunused t)
  · exact fun t u ht => absurd ht (hunused t)

theorem initial_empty : empty.Initial :=
  ⟨fun _ ⟨_, hhandle⟩ => absurd hhandle nofun, fun _ => Memory.coherent_empty⟩

end DocTables.Workspace
