import DocTables.Proofs.Workspace.Reached

/-!
Tables are told apart by their numbers. This covers tables that have lost their handles but are
still registered as targets of relations, whatever happens to the stores meanwhile.
-/
namespace DocTables

namespace Relations
variable {r : Relations} {t u : Table} {source : Nat}

/-- The table is a target of some source. -/
def Holds (r : Relations) (t : Table) : Prop := ∃ e ∈ r.entries, t ∈ e.2.values

theorem holds_of_targets (h : t ∈ (r.targets source).values) : r.Holds t := by
  unfold targets at h
  cases hlookup : r.entries.lookup source with
  | none =>
    rw [hlookup] at h
    simp [KeyMap.values, KeyMap.empty] at h
  | some targets =>
    rw [hlookup] at h
    obtain ⟨before, after, hentries, -⟩ := List.lookup_eq_some_iff.mp hlookup
    exact ⟨(source, targets), by rw [hentries]; simp, h⟩

theorem holds_insert {live : Table → Bool} {key : String}
    (h : (r.insert live source key u).Holds t) : t = u ∨ r.Holds t := by
  obtain ⟨e, he, ht⟩ := h
  rcases List.mem_cons.mp he with rfl | he
  · obtain ⟨f, hf, rfl⟩ := List.mem_map.mp ht
    rcases KeyMap.mem_insertEntry hf with rfl | hf
    · exact .inl rfl
    · exact .inr (holds_of_targets (List.mem_map_of_mem (List.mem_of_mem_filter hf)))
  · exact .inr ⟨e, List.mem_of_mem_filter he, ht⟩

theorem holds_eraseSource (h : (r.eraseSource source).Holds t) : r.Holds t := by
  obtain ⟨e, he, ht⟩ := h
  exact ⟨e, List.mem_of_mem_filter he, ht⟩

end Relations

namespace Workspace
open Effect
variable {w w' : Workspace} {t u : Table}

/-- The table has a handle or is the target of a relation. -/
def Known (w : Workspace) (t : Table) : Prop := w.Has t ∨ ∃ r ∈ w.relations, r.Holds t

/-- Numbers tell known tables apart, and greater numbers are free. -/
structure Identified (w : Workspace) : Prop where
  numbered : ∀ t, w.Known t → t.id ≤ w.tables
  same : ∀ t u, w.Known t → w.Known u → t.id = u.id → t = u

/-- The target that was registered for a relation column, with a handle or without. -/
def registered? (w : Workspace) (s : Table) (key : String) : Option Table :=
  ((w.related s.relations).targets s.id).get? key

theorem target?_eq (w : Workspace) (s : Table) (key : String) :
    w.target? s key = (w.registered? s key).filter w.hasHandle := rfl

theorem known_of_registered? {key : String} (h : w.registered? t key = some u) : w.Known u := by
  have hholds := Relations.holds_of_targets (List.mem_map_of_mem (KeyMap.mem_of_get? h))
  unfold related at hholds
  cases hrelated : w.relations[t.relations]? with
  | none =>
    rw [hrelated] at hholds
    obtain ⟨e, he, -⟩ := hholds
    exact nomatch he
  | some r =>
    rw [hrelated] at hholds
    exact .inr ⟨r, List.mem_of_getElem? hrelated, hholds⟩

theorem known_of_target? {key : String} (h : w.target? t key = some u) : w.Known u := by
  rw [target?_eq] at h
  exact known_of_registered? (Option.filter_eq_some_iff.mp h).1

theorem known_modifyRelated {n : Nat} {f : Relations → Relations}
    (h : (w.modifyRelated n f).Known t) : w.Known t ∨ ∃ r ∈ w.relations, (f r).Holds t := by
  rcases h with hhas | ⟨r, hr, hholds⟩
  · exact .inl (.inl hhas)
  · obtain ⟨i, hi⟩ := List.mem_iff_getElem?.mp hr
    rw [modifyRelated, List.getElem?_modify] at hi
    obtain ⟨r', hr', heq⟩ := Option.map_eq_some_iff.mp hi
    have hmem := List.mem_of_getElem? hr'
    by_cases hn : n = i
    · rw [if_pos hn] at heq
      exact .inr ⟨r', hmem, heq ▸ hholds⟩
    · rw [if_neg hn] at heq
      exact .inl (.inr ⟨r', hmem, heq ▸ hholds⟩)

theorem known_release (h : (w.release u).Known t) : w.Known t := by
  unfold release at h
  split at h
  · exact h
  · rcases known_modifyRelated h with h | ⟨r, hr, hholds⟩
    · exact h
    · exact .inr ⟨r, hr, Relations.holds_eraseSource hholds⟩

theorem known_setHandle {handle : String} (h : (w.setHandle handle u).Known t) :
    t = u ∨ w.Known t := by
  have hinsert : ∀ {t}, ({ w with handles := w.handles.insert handle u } : Workspace).Known t →
      t = u ∨ w.Known t := by
    rintro t (⟨other, hother⟩ | hrelated)
    · rw [KeyMap.get?_insert] at hother
      split at hother
      next => exact .inl (Option.some.inj hother).symm
      next => exact .inr (.inl ⟨other, hother⟩)
    · exact .inr (.inr hrelated)
  unfold setHandle at h
  simp only at h
  split at h
  · exact hinsert (known_release h)
  · exact hinsert h

theorem known_dropHandle {handle : String} (h : (w.dropHandle handle).Known t) : w.Known t := by
  unfold dropHandle at h
  split at h
  · rcases known_release h with ⟨other, hother⟩ | hrelated
    · rw [KeyMap.get?_erase] at hother
      split at hother
      · simp at hother
      · exact .inl ⟨other, hother⟩
    · exact .inr hrelated
  · exact h

theorem known_addTarget {n : Nat} {source : Table} {key : String}
    (h : (w.addTarget n source key u).Known t) : t = u ∨ w.Known t := by
  rcases known_modifyRelated h with h | ⟨r, hr, hholds⟩
  · exact .inr h
  · exact (Relations.holds_insert hholds).imp id fun h => .inr ⟨r, hr, h⟩

namespace Identified

theorem congr (h : w.Identified) (htables : w'.tables = w.tables)
    (hknown : ∀ t, w'.Known t → w.Known t) : w'.Identified := by
  refine ⟨fun t ht => ?_, fun t u ht hu => h.same t u (hknown t ht) (hknown u hu)⟩
  rw [htables]
  exact h.numbered t (hknown t ht)

theorem keptByCalls : KeptByCalls Identified :=
  keptByCalls_of_setMemory fun _ _ _ h => h.congr rfl fun _ ht => ht

theorem openContext (h : w.Identified) (name store : String) (limits : Limits) :
    (w.openContext name store limits).Identified := by
  refine h.congr rfl fun t ht => ht.imp id ?_
  rintro ⟨r, hr, hholds⟩
  rcases List.mem_append.mp hr with hr | hr
  · exact ⟨r, hr, hholds⟩
  · obtain rfl := List.mem_singleton.mp hr
    obtain ⟨e, he, -⟩ := hholds
    exact nomatch he

/-- The number of a new table is greater than those of all others. -/
theorem addTable (h : w.Identified) (handle title : String) (c : Context) (columns : Columns)
    (ref : CollectionRef) : (addTable handle title c columns ref w).2.Identified := by
  have hknown : ∀ {u}, (Workspace.addTable handle title c columns ref w).2.Known u →
      u = w.nextTable title c columns ref ∨ w.Known u := fun hu =>
    known_setHandle (w := { w with tables := w.tables + 1 }) hu
  have htables : (Workspace.addTable handle title c columns ref w).2.tables = w.tables + 1 :=
    (setHandle_fields handle _ _).2.2
  have hle : ∀ {u}, w.Known u → u.id ≠ (w.nextTable title c columns ref).id := by
    intro u hu
    have hbound := h.numbered u hu
    exact Nat.ne_of_lt (Nat.lt_succ_of_le hbound)
  refine ⟨fun u hu => ?_, fun u v hu hv heq => ?_⟩
  · rw [htables]
    rcases hknown hu with rfl | hu
    · exact le_rfl
    · exact Nat.le_succ_of_le (h.numbered u hu)
  · rcases hknown hu with rfl | hu <;> rcases hknown hv with rfl | hv
    · rfl
    · exact absurd heq.symm (hle hv)
    · exact absurd heq (hle hu)
    · exact h.same u v hu hv heq

theorem setHandle (h : w.Identified) (handle : String) (ht : w.Known t) :
    (w.setHandle handle t).Identified := by
  refine h.congr (setHandle_fields handle t w).2.2 fun u hu => ?_
  rcases known_setHandle hu with rfl | hu
  · exact ht
  · exact hu

theorem addTarget (h : w.Identified) (n : Nat) (source : Table) (key : String)
    (ht : w.Known t) : (w.addTarget n source key t).Identified := by
  refine h.congr rfl fun u hu => ?_
  rcases known_addTarget hu with rfl | hu
  · exact ht
  · exact hu

theorem setTarget (h : w.Identified) (source : Table) (key : String) (ht : w.Known t) :
    (w.setTarget source key t).Identified := h.addTarget source.relations source key ht

/-- Registered targets stay known, so all links of a list can be registered one after another. -/
theorem setTargets (h : w.Identified) {links : List Link} (hlinks : ∀ l ∈ links, w.Has l.target) :
    (w.setTargets links).Identified := by
  induction links generalizing w with
  | nil => exact h
  | cons l links ih =>
    obtain ⟨hl, hrest⟩ := List.forall_mem_cons.mp hlinks
    exact ih (h.setTarget l.source l.key (.inl hl)) hrest

theorem step (h : w.Identified) (hs : w.Step w') : w'.Identified := by
  have hdrop : ∀ handle, (w.dropHandle handle).Identified := fun handle =>
    h.congr (dropHandle_fields handle w).2 fun _ ht => known_dropHandle ht
  rcases keptByCalls.toKeptByWrites.step h h.openContext
    (fun handle t ht => h.setHandle handle (.inl ht)) hdrop
    (fun links hl => h.setTargets fun l hmem => (hl l hmem).2) hs with
    hsame | ⟨handle, title, c, columns, binding, rfl⟩ | ⟨handle, title, c, collection, rfl⟩
  · exact hsame
  · exact holds_addTable (keptByCalls.bind c.store title columns binding w h) (fun _ h => h)
      fun _ columns ref h => h.addTable handle title c columns ref
  · have hread : Keeps Identified (asking (.introspect collection)
      ((storeAt c.store).readSchema collection)) := .asking (keptByCalls.readSchema _ _)
    exact holds_addTable (hread w h) (fun _ h => h)
      fun _ columns ref h => h.addTable handle title c columns ref

end Identified

/-- Reached from the empty workspace by operations on tables and anything else that happens to the
stores. -/
def Reachable : Workspace → Prop :=
  Relation.ReflTransGen (fun w w' => w.Step w' ∨ ∃ name m, w' = w.setMemory name m) empty

theorem Reachable.identified (h : w.Reachable) : w.Identified := by
  induction h with
  | refl =>
    have hunknown : ∀ t, ¬ empty.Known t := by
      rintro t (⟨_, hhandle⟩ | ⟨_, hr, -⟩)
      · exact nomatch hhandle
      · exact nomatch hr
    exact ⟨fun t ht => absurd ht (hunknown t), fun t _ ht => absurd ht (hunknown t)⟩
  | tail _ hs ih =>
    rcases hs with hs | ⟨name, m, rfl⟩
    · exact ih.step hs
    · exact ih.congr rfl fun _ ht => ht

end Workspace
end DocTables
