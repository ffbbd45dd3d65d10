import DocTables.Proofs.Relation.Linking
import DocTables.Proofs.Store.Steps
import DocTables.Proofs.Workspace.Housed

/-!
Schema updates of one list of links, completed in any order. Each property of a schema is declared
as by the last update that declares it, so the order shows where two tables over one collection
declare a property differently, and where a store refuses its updates and so stops later ones.
-/
namespace DocTables
open Outcome Effect

namespace Memory
variable {m : Memory} {source id property : String} {c : Collection} {ps : Properties}

/-- How the schema of a collection declares a property. -/
def config? (m : Memory) (id property : String) : Option Json :=
  (m.collections.get? id).bind (·.properties.get? property)

/-- The collections and their data sources, whatever the schemas declare. -/
def ref? (m : Memory) (id : String) : Option CollectionRef :=
  (m.collections.get? id).map Collection.ref

theorem collection_of_source (h : m.Keyed) (hs : m.sources.get? source = some id)
    (hc : m.collectionOf source = .ok c) : c.id = id ∧ m.collections.get? id = some c := by
  obtain ⟨id', hid, hget⟩ := collectionOf_eq_ok.mp hc
  obtain rfl := Option.some.inj (hs.symm.trans hid)
  exact ⟨h.key hget, hget⟩

/-- An update declares its properties in the collection of its data source and nothing else. -/
theorem config?_extended (h : m.Keyed) (hs : m.sources.get? source = some id)
    (hc : m.collectionOf source = .ok c) (hps : ps.Sorted) (other property : String) :
    (m.extended c ps).config? other property =
      ((if other = id then ps.get? property else none).map Stamp.tagged).or
        (m.config? other property) := by
  obtain ⟨rfl, hget⟩ := collection_of_source h hs hc
  unfold config? extended
  rw [KeyMap.get?_insert]
  split
  next hid =>
    subst hid
    rw [hget, Option.bind_some, Option.bind_some, (hps.map Stamp.tagged).get?_union,
      KeyMap.get?_map]
  next => rfl

theorem ref?_extended (h : m.Keyed) (hs : m.sources.get? source = some id)
    (hc : m.collectionOf source = .ok c) (ps : Properties) (other : String) :
    (m.extended c ps).ref? other = m.ref? other := by
  obtain ⟨rfl, hget⟩ := collection_of_source h hs hc
  unfold ref? extended
  rw [KeyMap.get?_insert]
  split
  next hid =>
    subst hid
    rw [hget]
    rfl
  next => rfl

end Memory

namespace Workspace
variable {w : Workspace} {us us₁ us₂ : List (Table × Properties)} {name id property : String}

/-- What an update declares for a property of a collection of a store. -/
def declares? (w : Workspace) (name id property : String) (u : Table × Properties) : Option Json :=
  if u.1.store = name ∧ (w.memory name).sources.get? u.1.collection.source = some id then
    u.2.get? property
  else none

/-- All that updates declare for a property of a collection of a store, in their order. -/
def configs (w : Workspace) (name id property : String) (us : List (Table × Properties)) :
    List Json := us.filterMap (w.declares? name id property)

def Refuses (w : Workspace) (name : String) : Prop := (w.memory name).failure? .extendSchema ≠ none

instance (w : Workspace) (name : String) : Decidable (w.Refuses name) :=
  inferInstanceAs (Decidable (_ ≠ none))

/-- The updates before the first one that its store refuses. -/
def made (w : Workspace) (us : List (Table × Properties)) : List (Table × Properties) :=
  us.takeWhile fun u => ¬ w.Refuses u.1.store

/-- Updates of schemas that are there. -/
structure Updates (w : Workspace) (us : List (Table × Properties)) : Prop where
  keyed : ∀ name, (w.memory name).Keyed
  sources : ∀ u ∈ us, (w.memory u.1.store).HasSource u.1.collection.source
  sorted : ∀ u ∈ us, u.2.Sorted

/-- The workspace in which an update has been made of the schema of a collection. -/
def updated (w : Workspace) (u : Table × Properties) (c : Collection) : Workspace :=
  w.setMemory u.1.store (((w.memory u.1.store).noted
    [.extendSchema u.1.collection.source u.2]).extended c u.2)

section Step
variable {u : Table × Properties} {c : Collection}

/-- A store that was told to refuses an update, and so ends all of them. -/
theorem send_refused (hr : w.Refuses u.1.store) (us : List (Table × Properties)) :
    (Link.send storeAt (u :: us) w).2 =
      w.noted u.1.store [.extendSchema u.1.collection.source u.2] := by
  obtain ⟨message, hmessage⟩ := Option.ne_none_iff_exists'.mp hr
  have hrun : Memory.store.extendSchema u.1.collection.source u.2 (w.memory u.1.store) =
      (.error (.injected message),
        (w.memory u.1.store).noted [.extendSchema u.1.collection.source u.2]) := by
    refine (Memory.Steps.perform_eq _ _ _).trans ?_
    rw [Call.method, hmessage]
    rfl
  have hstored : (storeAt u.1.store).extendSchema u.1.collection.source u.2 w =
      (.error (.injected message), w.noted u.1.store [.extendSchema u.1.collection.source u.2]) :=
    run_onStore hrun
  rw [send_cons, run_bind, run_asking, hstored]

theorem send_made (h : w.Updates (u :: us)) (hr : ¬ w.Refuses u.1.store) :
    ∃ c, (w.memory u.1.store).collectionOf u.1.collection.source = .ok c ∧
      Link.send storeAt (u :: us) w = Link.send storeAt us (w.updated u c) := by
  have hextensible : (w.memory u.1.store).Extensible u.1.collection.source :=
    ⟨not_not.mp hr, (h.keyed _).collectionOf (h.sources u List.mem_cons_self)⟩
  obtain ⟨c, hc, hrun⟩ := Memory.extendSchema_total hextensible u.2
  have hstored : (storeAt u.1.store).extendSchema u.1.collection.source u.2 w =
      (.ok (), w.updated u c) := run_onStore hrun
  refine ⟨c, hc, ?_⟩
  rw [send_cons, run_bind, run_asking_ok hstored]

theorem sources_updated (w : Workspace) (u : Table × Properties) (c : Collection) (name : String) :
    ((w.updated u c).memory name).sources = (w.memory name).sources := by
  rw [updated, memory_setMemory_eq]
  split
  next h => rw [h]; rfl
  next => rfl

theorem refuses_updated (w : Workspace) (u : Table × Properties) (c : Collection) (name : String) :
    (w.updated u c).Refuses name ↔ w.Refuses name := by
  unfold Refuses
  rw [updated, memory_setMemory_eq]
  split
  next h => rw [h]; rfl
  next => rfl

variable (h : w.Updates (u :: us))
  (hc : (w.memory u.1.store).collectionOf u.1.collection.source = .ok c)
include h hc

omit hc in
theorem keyed_noted (calls : List Call) : ((w.memory u.1.store).noted calls).Keyed :=
  ((h.keyed u.1.store).sameData (.noted _ calls)).keyed

theorem grows_updated (name : String) :
    (w.memory name).Grows ((w.updated u c).memory name) := by
  rw [updated, memory_setMemory_eq]
  split
  next heq =>
    obtain ⟨hkeyed, hsources⟩ := (keyed_noted h _).extended hc u.2
    rw [heq]
    exact ⟨hkeyed, hsources⟩
  next => exact ⟨h.keyed name, fun _ hs => hs⟩

theorem Updates.updated : (w.updated u c).Updates us := by
  obtain ⟨-, hsources⟩ := List.forall_mem_cons.mp h.sources
  refine ⟨fun name => (grows_updated h hc name).keyed, fun v hv => ?_,
    (List.forall_mem_cons.mp h.sorted).2⟩
  exact (grows_updated h hc v.1.store).sources _ (hsources v hv)

theorem config?_updated (name id property : String) :
    ((w.updated u c).memory name).config? id property =
      ((w.declares? name id property u).map Stamp.tagged).or
        ((w.memory name).config? id property) := by
  obtain ⟨id', hid⟩ := h.sources u List.mem_cons_self
  rw [Workspace.updated, memory_setMemory_eq, declares?]
  split
  next heq =>
    subst heq
    rw [Memory.config?_extended (keyed_noted h _) hid hc (h.sorted u List.mem_cons_self), hid]
    simp only [true_and, Option.some.injEq, eq_comm]
    rfl
  next hne => simp [Ne.symm hne]

theorem ref?_updated (name id : String) :
    ((w.updated u c).memory name).ref? id = (w.memory name).ref? id := by
  obtain ⟨id', hid⟩ := h.sources u List.mem_cons_self
  rw [Workspace.updated, memory_setMemory_eq]
  split
  next heq =>
    subst heq
    exact Memory.ref?_extended (keyed_noted h _) hid hc u.2 id
  next => rfl

end Step

theorem configs_cons (w : Workspace) (name id property : String) (u : Table × Properties)
    (us : List (Table × Properties)) :
    (w.configs name id property (u :: us)).getLast? =
      (w.configs name id property us).getLast?.or (w.declares? name id property u) := by
  unfold configs
  rw [List.filterMap_cons]
  cases w.declares? name id property u with
  | none => rw [Option.or_none]
  | some x =>
    rw [List.getLast?_cons]
    cases (us.filterMap (w.declares? name id property)).getLast? <;> rfl

theorem made_updated (w : Workspace) (u : Table × Properties) (c : Collection)
    (us : List (Table × Properties)) : (w.updated u c).made us = w.made us := by
  unfold made
  simp only [refuses_updated]

theorem configs_updated (w : Workspace) (u : Table × Properties) (c : Collection)
    (name id property : String) (us : List (Table × Properties)) :
    (w.updated u c).configs name id property us = w.configs name id property us := by
  have hdeclares : (w.updated u c).declares? name id property = w.declares? name id property := by
    funext v
    rw [declares?, declares?, sources_updated]
  rw [configs, configs, hdeclares]

theorem collections_noted (w : Workspace) (other : String) (calls : List Call) (name : String) :
    ((w.noted other calls).memory name).collections = (w.memory name).collections := by
  rw [noted, memory_setMemory_eq]
  split
  next h => rw [h]; rfl
  next => rfl

/-- Updates leave each property as declared by the last of them that was made and declares it. -/
theorem config?_send (h : w.Updates us) (name id property : String) :
    ((Link.send storeAt us w).2.memory name).config? id property =
      ((w.configs name id property (w.made us)).getLast?.map Stamp.tagged).or
        ((w.memory name).config? id property) := by
  induction us generalizing w with
  | nil => rfl
  | cons u us ih =>
    by_cases hr : w.Refuses u.1.store
    · have hmade : w.made (u :: us) = [] := List.takeWhile_cons_of_neg (by simpa using hr)
      rw [send_refused hr, hmade]
      unfold Memory.config?
      rw [collections_noted]
      rfl
    · have hmade : w.made (u :: us) = u :: w.made us :=
        List.takeWhile_cons_of_pos (by simpa using hr)
      obtain ⟨c, hc, hsend⟩ := send_made h hr
      rw [hsend, ih (h.updated hc), config?_updated h hc, made_updated, configs_updated, hmade,
        configs_cons, Option.map_or, Option.or_assoc]

theorem ref?_send (h : w.Updates us) (name id : String) :
    ((Link.send storeAt us w).2.memory name).ref? id = (w.memory name).ref? id := by
  induction us generalizing w with
  | nil => rfl
  | cons u us ih =>
    by_cases hr : w.Refuses u.1.store
    · rw [send_refused hr]
      unfold Memory.ref?
      rw [collections_noted]
    · obtain ⟨c, hc, hsend⟩ := send_made h hr
      rw [hsend, ih (h.updated hc), ref?_updated h hc]

/-- No two of the updates declare a property of a collection differently. -/
def Uncontested (w : Workspace) (name id property : String) (us : List (Table × Properties)) :
    Prop := ∀ x ∈ w.configs name id property us, ∀ y ∈ w.configs name id property us, x = y

theorem getLast?_eq_of_perm {α : Type} {xs ys : List α} (h : xs.Perm ys)
    (hsame : ∀ x ∈ ys, ∀ y ∈ ys, x = y) : xs.getLast? = ys.getLast? := by
  cases hx : xs.getLast? with
  | none =>
    obtain rfl := List.getLast?_eq_none_iff.mp hx
    rw [h.symm.eq_nil]
    rfl
  | some x =>
    cases hy : ys.getLast? with
    | none =>
      obtain rfl := List.getLast?_eq_none_iff.mp hy
      rw [h.eq_nil] at hx
      exact nomatch hx
    | some y =>
      exact congrArg some (hsame x (h.subset (List.mem_of_getLast? hx)) y (List.mem_of_getLast? hy))

/-- In a store that refuses its updates none of them is made. -/
theorem configs_of_refuses (hr : w.Refuses name) (id property : String)
    (us : List (Table × Properties)) : w.configs name id property (w.made us) = [] := by
  refine List.filterMap_eq_nil_iff.mpr fun u hu => ?_
  have hworks : ¬ w.Refuses u.1.store := by simpa using List.mem_takeWhile_imp hu
  have hne : u.1.store ≠ name := by
    rintro rfl
    exact hworks hr
  rw [declares?, if_neg fun h => hne h.1]

/-- Where no other store refuses its updates, the last declaration does not depend on the order,
unless there are different ones. -/
theorem lastConfig_of_perm (hothers : ∀ u ∈ us, u.1.store ≠ name → ¬ w.Refuses u.1.store)
    (h₁ : us₁.Perm us) (h₂ : us₂.Perm us) (hsame : w.Uncontested name id property us) :
    (w.configs name id property (w.made us₁)).getLast? =
      (w.configs name id property (w.made us₂)).getLast? := by
  by_cases hr : w.Refuses name
  · rw [configs_of_refuses hr, configs_of_refuses hr]
  · have hall : ∀ {us'}, us'.Perm us → w.made us' = us' := by
      intro us' hperm
      refine List.takeWhile_eq_self_iff.mpr fun u hu => ?_
      by_cases hname : u.1.store = name
      · simpa [hname] using hr
      · simpa using hothers u (hperm.subset hu) hname
    have hlast : ∀ {us'}, us'.Perm us → (w.configs name id property us').getLast? =
        (w.configs name id property us).getLast? :=
      fun hperm => getLast?_eq_of_perm (hperm.filterMap _) hsame
    rw [hall h₁, hall h₂, hlast h₁, hlast h₂]

theorem memory_setTargets (links : List Link) (w : Workspace) (name : String) :
    (w.setTargets links).memory name = w.memory name := by
  unfold memory
  rw [(setTargets_fields links w).2.2]

/-- The updates of links between tables with handles, in any order. -/
theorem Arisen.updates (h : w.Arisen) {links : List Link} (hlinks : ∀ l ∈ links, w.Has l.source)
    (hus : Link.updates links = .ok us) :
    Link.Collected links us ∧ ∀ us', us'.Perm us → (w.setTargets links).Updates us' := by
  have hhoused := h.housed
  have hsame : ∀ l ∈ links, ∀ m ∈ links, l.source.id = m.source.id → l.source = m.source :=
    fun l hl m hm => h.reachable.identified.same _ _ (.inl (hlinks l hl)) (.inl (hlinks m hm))
  have hfault : links.findSome? Link.fault? = none := by
    cases hfault : links.findSome? Link.fault? with
    | none => rfl
    | some e => exact nomatch (Link.updates_refused hfault).symm.trans hus
  obtain ⟨us₁, hus₁, hcollected⟩ := Link.collected_updates hfault hsame
  obtain rfl := Except.ok.inj (hus₁.symm.trans hus)
  refine ⟨hcollected, fun us' hperm => ⟨fun name => ?_, fun u hu => ?_, fun u hu => ?_⟩⟩
  · rw [memory_setTargets]
    exact hhoused.keyed name
  · rw [memory_setTargets]
    obtain ⟨l, hl, heq⟩ := (hcollected.sources u.1).mp (List.mem_map_of_mem (hperm.subset hu))
    exact heq ▸ hhoused.sources l.source (hlinks l hl)
  · rw [hcollected.properties u (hperm.subset hu)]
    exact KeyMap.sorted_ofList _

/-- How the schemas of a store declare properties once links are registered and the updates for
them are completed in a given order. -/
def linkedConfig? (w : Workspace) (links : List Link) (us : List (Table × Properties))
    (name id property : String) : Option Json :=
  ((Link.send storeAt us (w.setTargets links)).2.memory name).config? id property

theorem linkedConfig?_eq {links : List Link} (h : (w.setTargets links).Updates us)
    (name id property : String) :
    w.linkedConfig? links us name id property =
      ((w.configs name id property (w.made us)).getLast?.map Stamp.tagged).or
        ((w.memory name).config? id property) := by
  have hmemory : (w.setTargets links).memory = w.memory := funext (memory_setTargets links w)
  have hconfigs : (w.setTargets links).configs name id property = w.configs name id property := by
    funext us'
    unfold configs declares?
    rw [hmemory]
  have hmade : (w.setTargets links).made us = w.made us := by
    unfold made Refuses
    simp only [hmemory]
    rfl
  rw [linkedConfig?, config?_send h, hconfigs, hmade, hmemory]

/-- Links whose updates are completed in any order. Each property is then declared as by the last
update that was made and declares it, or else as before, and collections and data sources are where
they were. If no other store refuses its updates, any two orders give a store the same schemas but
for properties that two tables over one collection declare differently. -/
theorem link_orders_settle (h : w.Arisen) {links : List Link}
    (hlinks : ∀ l ∈ links, w.Has l.source) (hus : Link.updates links = .ok us) :
    Link.Collected links us ∧
    link links w = Link.send storeAt us (w.setTargets links) ∧
    ∀ name, (∀ us', us'.Perm us → ∀ id,
        ((Link.send storeAt us' (w.setTargets links)).2.memory name).ref? id =
          (w.memory name).ref? id ∧
        ∀ property, w.linkedConfig? links us' name id property =
          ((w.configs name id property (w.made us')).getLast?.map Stamp.tagged).or
            ((w.memory name).config? id property)) ∧
      ((∀ u ∈ us, u.1.store ≠ name → ¬ w.Refuses u.1.store) →
        ∀ us₁ us₂, us₁.Perm us → us₂.Perm us → ∀ id property,
          w.Uncontested name id property us →
            w.linkedConfig? links us₁ name id property =
              w.linkedConfig? links us₂ name id property) := by
  obtain ⟨hcollected, hupdates⟩ := h.updates hlinks hus
  refine ⟨hcollected, run_link_accepted hus w, fun name => ⟨fun us' hperm id => ⟨?_, ?_⟩, ?_⟩⟩
  · rw [ref?_send (hupdates us' hperm), memory_setTargets]
  · exact linkedConfig?_eq (hupdates us' hperm) name id
  · intro hothers us₁ us₂ h₁ h₂ id property hsame
    rw [linkedConfig?_eq (hupdates us₁ h₁), linkedConfig?_eq (hupdates us₂ h₂),
      lastConfig_of_perm hothers h₁ h₂ hsame]

/-- Drafts of the chapters, over the same collection. -/
def drafts : Table := { chapters with id := 2, title := "Drafts" }

/-- The chapters and their drafts. -/
def drafted : Workspace :=
  (define "drafts" "Drafts" ⟨"m", {}, 0⟩ chapters.columns (.existing "new-col-1")
    chaptersAlone).2

theorem arisen_chaptersAlone : chaptersAlone.Arisen := by
  have hopened : (empty.openContext "c" "m" {}).Arisen := .single (.inl (.openContext "c" "m" {}))
  exact hopened.tail
    (.inl (.define "chapters" "Chapters" ⟨"m", {}, 0⟩ chapters.columns (.under "page")))

theorem arisen_drafted : drafted.Arisen :=
  arisen_chaptersAlone.tail
    (.inl (.define "drafts" "Drafts" ⟨"m", {}, 0⟩ chapters.columns (.existing "new-col-1")))

/-- Both declare the next one, but differently. -/
def nextLinks : List Link :=
  [⟨chapters, "next", chapters, .oneWay⟩, ⟨drafts, "next", drafts, .twoWay none none⟩]

theorem has_nextLinks : ∀ l ∈ nextLinks, drafted.Has l.source := by
  have hchapters : drafted.Has chapters := ⟨"chapters", rfl⟩
  have hdrafts : drafted.Has drafts := ⟨"drafts", rfl⟩
  simpa [nextLinks] using ⟨hchapters, hdrafts⟩

def nextUpdates : List (Table × Properties) :=
  [(chapters, .ofList [("Next", relationConfig "new-ds-1" .oneWay)]),
    (drafts, .ofList [("Next", relationConfig "new-ds-1" (.twoWay none none))])]

theorem link_orders_settle_drafted :
    drafted.linkedConfig? nextLinks nextUpdates.reverse "m" "new-col-1" "Next" =
      some (Stamp.tagged (relationConfig "new-ds-1" .oneWay)) := by
  have hupdates : Link.updates nextLinks = .ok nextUpdates := rfl
  obtain ⟨-, -, hsettled⟩ := link_orders_settle arisen_drafted has_nextLinks hupdates
  exact ((hsettled "m").1 _ nextUpdates.reverse_perm "new-col-1").2 "Next"

/-- Drafts of the chapters in a store of their own. -/
def awayDrafts : Table := { drafts with store := "n", relations := 1 }

/-- The chapters and, in a store that does not extend schemas, their drafts. -/
def draftedAway : Workspace :=
  let w := (define "drafts" "Drafts" ⟨"n", {}, 1⟩ chapters.columns (.under "page")
    (chaptersAlone.openContext "d" "n" {})).2
  w.setMemory "n" ((w.memory "n").failWith .extendSchema "offline")

theorem arisen_draftedAway : draftedAway.Arisen := by
  have hopened : (chaptersAlone.openContext "d" "n" {}).Arisen :=
    arisen_chaptersAlone.tail (.inl (.openContext "d" "n" {}))
  have hdrafts := Relation.ReflTransGen.tail hopened
    (.inl (.define "drafts" "Drafts" ⟨"n", {}, 1⟩ chapters.columns (.under "page")))
  exact hdrafts.tail (.inr ⟨"n", .failWith .extendSchema "offline", rfl⟩)

def awayLinks : List Link :=
  [⟨chapters, "next", chapters, .oneWay⟩, ⟨awayDrafts, "next", awayDrafts, .oneWay⟩]

theorem has_awayLinks : ∀ l ∈ awayLinks, draftedAway.Has l.source := by
  have hchapters : draftedAway.Has chapters := ⟨"chapters", rfl⟩
  have hdrafts : draftedAway.Has awayDrafts := ⟨"drafts", rfl⟩
  simpa [awayLinks] using ⟨hchapters, hdrafts⟩

def awayUpdates : List (Table × Properties) :=
  [(chapters, .ofList [("Next", relationConfig "new-ds-1" .oneWay)]),
    (awayDrafts, .ofList [("Next", relationConfig "new-ds-1" .oneWay)])]

theorem uncontested_awayUpdates (id property : String) :
    draftedAway.Uncontested "m" id property awayUpdates := by
  have honly : ∀ x ∈ draftedAway.configs "m" id property awayUpdates,
      KeyMap.get? (.ofList [("Next", relationConfig "new-ds-1" .oneWay)]) property = some x := by
    intro x hx
    obtain ⟨u, hu, hdeclares⟩ := List.mem_filterMap.mp hx
    unfold declares? at hdeclares
    split at hdeclares
    next hin =>
      obtain rfl | rfl : u = awayUpdates[0] ∨ u = awayUpdates[1] := by
        simpa [awayUpdates] using hu
      · exact hdeclares
      · exact absurd hin.1 (by decide)
    next => exact nomatch hdeclares
  intro x hx y hy
  exact Option.some.inj ((honly x hx).symm.trans (honly y hy))

/-- How many sides a declared relation shows on. -/
def sides? (config : Json) : Option String := (config.get? "relation").bind (·.field? "type")

/-- Even where no store refuses an update the order shows in what two tables declare differently,
and even where nothing is declared differently it shows if another store refuses. -/
theorem not_forall_orders_agree :
    (¬ ∀ (w : Workspace) (links : List Link) (us us' : List (Table × Properties))
        (name id property : String),
      w.Arisen → (∀ l ∈ links, w.Has l.source) → Link.updates links = .ok us → us'.Perm us →
        (∀ u ∈ us, ¬ w.Refuses u.1.store) →
          w.linkedConfig? links us name id property =
            w.linkedConfig? links us' name id property) ∧
    ¬ ∀ (w : Workspace) (links : List Link) (us us' : List (Table × Properties))
        (name id property : String),
      w.Arisen → (∀ l ∈ links, w.Has l.source) → Link.updates links = .ok us → us'.Perm us →
        (∀ id property, w.Uncontested name id property us) →
          w.linkedConfig? links us name id property =
            w.linkedConfig? links us' name id property := by
  refine ⟨fun hall => ?_, fun hall => ?_⟩
  · have hworks : ∀ u ∈ nextUpdates, ¬ drafted.Refuses u.1.store := by decide
    have hsame := hall drafted nextLinks nextUpdates nextUpdates.reverse "m" "new-col-1" "Next"
      arisen_drafted has_nextLinks rfl nextUpdates.reverse_perm hworks
    exact absurd (congrArg (Option.bind · sides?) hsame) (by decide)
  · have hsame := hall draftedAway awayLinks awayUpdates awayUpdates.reverse "m" "new-col-1" "Next"
      arisen_draftedAway has_awayLinks rfl awayUpdates.reverse_perm uncontested_awayUpdates
    exact absurd (congrArg (Option.bind · sides?) hsame) (by decide)

end Workspace
end DocTables
