import DocTables.Proofs.Workspace.Identified

/-!
Registered targets, and what each operation does to them. A target stays registered until another
takes its place or its source loses its last handle, and it shows while it has a handle itself.
-/
namespace DocTables

namespace Relations
variable (r : Relations) (live : Table → Bool) (source i : Nat)

theorem lookup_without (es : List (Nat × KeyMap Table)) :
    (es.filter fun e => e.1 ≠ source).lookup i = if i = source then none else es.lookup i := by
  induction es with
  | nil => simp
  | cons e es ih =>
    obtain ⟨j, targets⟩ := e
    by_cases hj : j = source
    · rw [List.filter_cons_of_neg (by simp [hj]), ih, List.lookup_cons, hj]
      by_cases hi : i = source
      · rw [if_pos hi, if_pos hi]
      · rw [if_neg hi, if_neg hi, beq_false_of_ne hi]
    · rw [List.filter_cons_of_pos (by simp [hj]), List.lookup_cons, List.lookup_cons, ih]
      by_cases hi : i = source
      · rw [if_pos hi, if_pos hi, hi, beq_false_of_ne (Ne.symm hj)]
      · rw [if_neg hi, if_neg hi]

theorem targets_insert (key : String) (target : Table) :
    (r.insert live source key target).targets i =
      if i = source then ((r.targets source).filter live).insert key target else r.targets i := by
  unfold insert targets
  by_cases hi : i = source
  · simp [hi]
  · rw [List.lookup_cons, beq_false_of_ne hi, if_neg hi]
    simp only [lookup_without, if_neg hi]

theorem targets_eraseSource :
    (r.eraseSource source).targets i = if i = source then .empty else r.targets i := by
  unfold targets eraseSource
  rw [lookup_without]
  split <;> rfl

end Relations

namespace Workspace
open Effect
variable {w w' : Workspace} {s t : Table} {key : String}

theorem hasHandle_iff : w.hasHandle t = true ↔ ∃ u ∈ w.handles.values, u.id = t.id := by
  simp [hasHandle]

theorem hasHandle_of_has (h : w.Has t) : w.hasHandle t = true := by
  obtain ⟨handle, hhandle⟩ := h
  exact hasHandle_iff.mpr ⟨t, List.mem_map_of_mem (KeyMap.mem_of_get? hhandle), rfl⟩

/-- The same tables, handles and relations. Only stores may be different. -/
structure SameTables (w w' : Workspace) : Prop where
  contexts : w'.contexts = w.contexts
  relations : w'.relations = w.relations
  handles : w'.handles = w.handles
  tables : w'.tables = w.tables

namespace SameTables

theorem refl (w : Workspace) : SameTables w w := ⟨rfl, rfl, rfl, rfl⟩

theorem has (h : SameTables w w') : w'.Has t ↔ w.Has t := by
  unfold Has
  rw [h.handles]

theorem hasHandle (h : SameTables w w') : w'.hasHandle = w.hasHandle := by
  funext t
  unfold Workspace.hasHandle
  rw [h.handles]

theorem related (h : SameTables w w') (n : Nat) : w'.related n = w.related n := by
  unfold Workspace.related
  rw [h.relations]

theorem target? (h : SameTables w w') (s : Table) (key : String) :
    w'.target? s key = w.target? s key := by
  rw [target?_eq, target?_eq, h.hasHandle]
  unfold registered?
  rw [h.related]

end SameTables

theorem keptByCalls_sameTables (w : Workspace) : KeptByCalls (SameTables w) :=
  keptByCalls_of_setMemory fun _ _ _ h => ⟨h.contexts, h.relations, h.handles, h.tables⟩

theorem related_modifyRelated (w : Workspace) (n m : Nat) (f : Relations → Relations) :
    (w.modifyRelated n f).related m =
      if n = m ∧ m < w.relations.length then f (w.related m) else w.related m := by
  unfold related modifyRelated
  rw [List.getElem?_modify]
  by_cases hm : m < w.relations.length
  · by_cases hn : n = m <;> simp [hn, hm]
  · simp [hm]

theorem related_openContext (w : Workspace) (name store : String) (limits : Limits) (n : Nat) :
    (w.openContext name store limits).related n = w.related n := by
  unfold related openContext
  rcases Nat.lt_trichotomy n w.relations.length with hn | rfl | hn
  · simp [List.getElem?_append_left hn]
  · simp
  · rw [List.getElem?_eq_none (by simp; omega), List.getElem?_eq_none (by omega)]

/-- Relations are where tables and contexts say, in key order, and there are none yet of tables
with greater numbers. -/
structure Wired (w : Workspace) : Prop where
  placed : ∀ t, w.Has t → t.relations < w.relations.length
  contexts : ∀ name c, w.contexts.get? name = some c → c.relations < w.relations.length
  sorted : ∀ n i, ((w.related n).targets i).Sorted
  unused : ∀ n i, w.tables < i → (w.related n).targets i = .empty

namespace Wired

theorem congr (h : w.Wired) (hs : SameTables w w') : w'.Wired := by
  refine ⟨fun t ht => ?_, fun name c hc => ?_, fun n i => ?_, fun n i hi => ?_⟩
  · rw [hs.relations]
    exact h.placed t (hs.has.mp ht)
  · rw [hs.contexts] at hc
    rw [hs.relations]
    exact h.contexts name c hc
  · rw [hs.related]
    exact h.sorted n i
  · rw [hs.tables] at hi
    rw [hs.related]
    exact h.unused n i hi

/-- Relations may change table by table, and tables may lose their handles. -/
theorem modifyRelated (h : w.Wired) {n : Nat} {f : Relations → Relations}
    (hsorted : ∀ i, ((f (w.related n)).targets i).Sorted)
    (hunused : ∀ i, w.tables < i → (f (w.related n)).targets i = .empty) :
    (w.modifyRelated n f).Wired := by
  have hlength : (w.modifyRelated n f).relations.length = w.relations.length :=
    List.length_modify ..
  refine ⟨fun t ht => ?_, fun name c hc => ?_, fun m i => ?_, fun m i hi => ?_⟩
  · rw [hlength]
    exact h.placed t ht
  · rw [hlength]
    exact h.contexts name c hc
  · rw [related_modifyRelated]
    split
    next hm => exact hm.1 ▸ hsorted i
    next => exact h.sorted m i
  · rw [related_modifyRelated]
    split
    next hm => exact hm.1 ▸ hunused i hi
    next => exact h.unused m i hi

theorem release (h : w.Wired) (t : Table) : (w.release t).Wired := by
  unfold Workspace.release
  split
  · exact h
  · apply h.modifyRelated
    · intro i
      rw [Relations.targets_eraseSource]
      split
      · exact List.Pairwise.nil
      · exact h.sorted _ i
    · intro i hi
      rw [Relations.targets_eraseSource, h.unused _ i hi]
      split <;> rfl

theorem addTarget (h : w.Wired) (hid : s.id ≤ w.tables) (n : Nat) (key : String) (t : Table) :
    (w.addTarget n s key t).Wired := by
  apply h.modifyRelated
  · intro i
    rw [Relations.targets_insert]
    split
    · exact ((h.sorted _ _).filter _).insert key t
    · exact h.sorted _ i
  · intro i hi
    rw [Relations.targets_insert, if_neg (by omega)]
    exact h.unused _ i hi

theorem setTarget (h : w.Wired) (hid : s.id ≤ w.tables) (key : String) (t : Table) :
    (w.setTarget s key t).Wired := h.addTarget hid s.relations key t

theorem openContext (h : w.Wired) (name store : String) (limits : Limits) :
    (w.openContext name store limits).Wired := by
  have hlength : (w.openContext name store limits).relations.length = w.relations.length + 1 :=
    List.length_append
  refine ⟨fun t ht => ?_, fun other c hc => ?_, fun n i => ?_, fun n i hi => ?_⟩
  · have hplaced := h.placed t ht
    omega
  · simp only [Workspace.openContext, KeyMap.get?_insert] at hc
    split at hc
    next =>
      obtain rfl := Option.some.inj hc
      simp only [hlength]
      omega
    next =>
      have hplaced := h.contexts other c hc
      omega
  · rw [related_openContext]
    exact h.sorted n i
  · rw [related_openContext]
    exact h.unused n i hi

/-- A table gets a handle, perhaps with a number of its own. -/
theorem withHandle (h : w.Wired) (handle : String) (ht : t.relations < w.relations.length)
    {n : Nat} (hn : w.tables ≤ n) : ({ w with tables := n }.setHandle handle t).Wired := by
  have hinserted : ({ w with tables := n, handles := w.handles.insert handle t } :
      Workspace).Wired := by
    refine ⟨fun u hu => ?_, h.contexts, h.sorted, fun m i hi => h.unused m i ?_⟩
    · obtain ⟨other, hother⟩ := hu
      rw [KeyMap.get?_insert] at hother
      split at hother
      next => exact Option.some.inj hother ▸ ht
      next => exact h.placed u ⟨other, hother⟩
    · exact lt_of_le_of_lt hn hi
  unfold setHandle
  simp only
  split
  · exact hinserted.release _
  · exact hinserted

theorem dropHandle (h : w.Wired) (handle : String) : (w.dropHandle handle).Wired := by
  unfold Workspace.dropHandle
  split
  next old _ =>
    have herased : ({ w with handles := w.handles.erase handle } : Workspace).Wired := by
      refine ⟨fun u hu => ?_, h.contexts, h.sorted, h.unused⟩
      obtain ⟨other, hother⟩ := hu
      rw [KeyMap.get?_erase] at hother
      split at hother
      next => exact nomatch hother
      next => exact h.placed u ⟨other, hother⟩
    exact herased.release old
  next => exact h

end Wired

/-- A table with a handle keeps its targets when another one is released. -/
theorem registered?_release (hs : w.Has s) (t : Table) (key : String) :
    (w.release t).registered? s key = w.registered? s key := by
  unfold release
  split
  · rfl
  next hgone =>
    have hne : s.id ≠ t.id := fun heq =>
      hgone (hasHandle_iff.mpr ((hasHandle_iff.mp (hasHandle_of_has hs)).imp fun u hu =>
        ⟨hu.1, hu.2.trans heq⟩))
    unfold registered?
    rw [related_modifyRelated]
    split
    · rw [Relations.targets_eraseSource, if_neg hne]
    · rfl

theorem has_release : (w.release t).Has s ↔ w.Has s := by
  unfold Has
  rw [(handles_release t w).1]

theorem registered?_setHandle {handle : String} (hs : (w.setHandle handle t).Has s)
    (key : String) : (w.setHandle handle t).registered? s key = w.registered? s key := by
  unfold setHandle at hs ⊢
  simp only at hs ⊢
  split
  next old hold =>
    rw [hold] at hs
    exact registered?_release (has_release.mp hs) old key
  next => rfl

theorem registered?_dropHandle {handle : String} (hs : (w.dropHandle handle).Has s)
    (key : String) : (w.dropHandle handle).registered? s key = w.registered? s key := by
  unfold dropHandle at hs ⊢
  split
  next old hold =>
    rw [hold] at hs
    exact registered?_release (has_release.mp hs) old key
  next => rfl

theorem hasHandle_setHandle {handle : String} {u : Table}
    (h : (w.setHandle handle t).hasHandle u = true) : u.id = t.id ∨ w.hasHandle u = true := by
  obtain ⟨v, hv, hid⟩ := hasHandle_iff.mp h
  rw [(setHandle_fields handle t w).1] at hv
  obtain ⟨e, he, rfl⟩ := List.mem_map.mp hv
  rcases KeyMap.mem_insertEntry he with rfl | he
  · exact .inl hid.symm
  · exact .inr (hasHandle_iff.mpr ⟨e.2, List.mem_map_of_mem he, hid⟩)

theorem hasHandle_dropHandle {handle : String}
    (h : (w.dropHandle handle).hasHandle t = true) : w.hasHandle t = true := by
  obtain ⟨v, hv, hid⟩ := hasHandle_iff.mp h
  unfold dropHandle at hv
  split at hv
  · rw [(handles_release _ _).1] at hv
    obtain ⟨e, he, rfl⟩ := List.mem_map.mp hv
    exact hasHandle_iff.mpr ⟨e.2, List.mem_map_of_mem (List.mem_of_mem_filter he), hid⟩
  · exact hasHandle_iff.mpr ⟨v, hv, hid⟩

/-- Registering a target shows it for its column and leaves what shows for all other columns. -/
theorem target?_setTarget (hw : w.Wired) (hi : w.Identified) {source target : Table}
    (hsource : w.Has source) (htarget : w.Has target) (hs : w.Has s) (name : String) :
    (w.setTarget source name target).target? s key =
      if source.id = s.id ∧ name = key then some target else w.target? s key := by
  have hlive : (w.setTarget source name target).hasHandle = w.hasHandle := rfl
  rw [target?_eq, target?_eq, hlive]
  unfold registered? setTarget
  rw [related_modifyRelated]
  by_cases hid : source.id = s.id
  · obtain rfl := hi.same source s (.inl hsource) (.inl hs) hid
    rw [if_pos ⟨rfl, hw.placed source hsource⟩, Relations.targets_insert, if_pos rfl,
      KeyMap.get?_insert, (hw.sorted _ _).get?_filter]
    by_cases hk : key = name
    · subst hk
      simp [Option.filter, hasHandle_of_has htarget]
    · rw [if_neg hk, if_neg fun h => hk h.2.symm, Option.filter_filter]
      simp
  · have hother : ¬ (source.id = s.id ∧ name = key) := fun h => hid h.1
    rw [if_neg hother]
    split
    · rw [Relations.targets_insert, if_neg (Ne.symm hid)]
    · rfl

/-- The target of the last link of a list for a relation column. -/
def lastTarget (s : Table) (key : String) (links : List Link) : Option Table :=
  ((links.filter fun l => l.source.id = s.id ∧ l.key = key).getLast?).map Link.target

theorem lastTarget_append (s : Table) (key : String) (links later : List Link) :
    lastTarget s key (links ++ later) = (lastTarget s key later).or (lastTarget s key links) := by
  simp only [lastTarget, List.filter_append, List.getLast?_append, Option.map_or]

theorem mem_of_lastTarget {links : List Link} (h : lastTarget s key links = some t) :
    ∃ l ∈ links, l.source.id = s.id ∧ l.key = key ∧ l.target = t := by
  obtain ⟨l, hl, rfl⟩ := Option.map_eq_some_iff.mp h
  obtain ⟨hmem, hnames⟩ := List.mem_filter.mp (List.mem_of_getLast? hl)
  obtain ⟨hid, hkey⟩ := of_decide_eq_true hnames
  exact ⟨l, hmem, hid, hkey, rfl⟩

theorem lastTarget_eq_none {links : List Link}
    (h : ∀ l ∈ links, ¬ (l.source.id = s.id ∧ l.key = key)) : lastTarget s key links = none := by
  have hempty : links.filter (fun l => l.source.id = s.id ∧ l.key = key) = [] :=
    List.filter_eq_nil_iff.mpr fun l hl => by simpa using h l hl
  rw [lastTarget, hempty]
  rfl

theorem Wired.setTargets (h : w.Wired) {links : List Link}
    (hlinks : ∀ l ∈ links, l.source.id ≤ w.tables) : (w.setTargets links).Wired := by
  induction links generalizing w with
  | nil => exact h
  | cons l links ih =>
    obtain ⟨hl, hrest⟩ := List.forall_mem_cons.mp hlinks
    exact ih (h.setTarget hl l.key l.target) hrest

/-- After the links of a list, the last one for a column decides, and other columns show what they
showed. -/
theorem target?_setTargets (hw : w.Wired) (hi : w.Identified) {links : List Link}
    (hlinks : ∀ l ∈ links, w.Has l.source ∧ w.Has l.target) (hs : w.Has s) (key : String) :
    (w.setTargets links).target? s key = (lastTarget s key links).or (w.target? s key) := by
  induction links generalizing w with
  | nil => rfl
  | cons l links ih =>
    obtain ⟨⟨hsource, htarget⟩, hrest⟩ := List.forall_mem_cons.mp hlinks
    have hwired := hw.setTarget (hi.numbered _ (.inl hsource)) l.key l.target
    have hidentified := hi.setTarget l.source l.key (.inl htarget)
    have hcons : w.setTargets (l :: links) =
        (w.setTarget l.source l.key l.target).setTargets links := rfl
    rw [hcons, ih hwired hidentified hrest hs, target?_setTarget hw hi hsource htarget hs,
      ← List.singleton_append, lastTarget_append, Option.or_assoc]
    congr 1
    by_cases hnames : l.source.id = s.id ∧ l.key = key
    · rw [if_pos hnames, lastTarget, List.filter_singleton]
      simp [hnames]
    · rw [if_neg hnames, lastTarget_eq_none (by simpa using hnames)]
      rfl

end Workspace
end DocTables
