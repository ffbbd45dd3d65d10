import Mathlib.Data.List.Basic
import Mathlib.Data.List.Dedup
import Mathlib.Data.List.Forall2
import Mathlib.Data.List.Nodup
import Mathlib.Data.List.Perm.Basic
import Mathlib.Data.String.Basic
import DocTables.KeyMap

/-! Finite maps as functions of their keys: what maps built from lists of entries hold. -/
namespace DocTables.KeyMap
variable {α : Type u} {β : Type v}

theorem mem_of_lookup {k : String} {a : α} {es : List (String × α)} (h : lookup k es = some a) :
    (k, a) ∈ es := by
  induction es with
  | nil => simp [lookup] at h
  | cons e es ih =>
    simp only [lookup] at h
    split at h
    next he =>
      obtain rfl := Option.some.inj h
      simp [← he]
    next => exact List.mem_cons_of_mem _ (ih h)

theorem lookup_eq_none {k : String} {es : List (String × α)} :
    lookup k es = none ↔ k ∉ es.map Prod.fst := by
  induction es with
  | nil => simp [lookup]
  | cons e es ih =>
    simp only [lookup, List.map_cons, List.mem_cons, not_or]
    split
    next he => simp [he]
    next he => rw [ih]; exact ⟨fun h => ⟨fun hk => he hk.symm, h⟩, And.right⟩

theorem lookup_append (k : String) (es fs : List (String × α)) :
    lookup k (es ++ fs) = (lookup k es).or (lookup k fs) := by
  induction es with
  | nil => rfl
  | cons e es ih =>
    simp only [List.cons_append, lookup]
    split
    · rfl
    · exact ih

theorem lookup_of_mem {k : String} {a : α} {es : List (String × α)}
    (hn : (es.map Prod.fst).Nodup) (h : (k, a) ∈ es) : lookup k es = some a := by
  induction es with
  | nil => simp at h
  | cons e es ih =>
    obtain ⟨hne, hn⟩ := List.nodup_cons.mp hn
    rcases List.mem_cons.mp h with rfl | hm
    · simp [lookup]
    · have hk : e.1 ≠ k := fun he => hne (he ▸ List.mem_map_of_mem (f := Prod.fst) hm)
      simp [lookup, hk, ih hn hm]

theorem lookup_of_forall {k : String} {a : α} {es : List (String × α)}
    (hmem : k ∈ es.map Prod.fst) (hall : ∀ e ∈ es, e.2 = a) : lookup k es = some a := by
  cases hlookup : lookup k es with
  | none => exact absurd hmem (lookup_eq_none.mp hlookup)
  | some b => exact congrArg some (hall _ (mem_of_lookup hlookup))

/-- Without repeated keys the order of the entries does not matter. -/
theorem lookup_reverse {es : List (String × α)} (hn : (es.map Prod.fst).Nodup) (k : String) :
    lookup k es.reverse = lookup k es := by
  have hr : (es.reverse.map Prod.fst).Nodup := by
    rw [List.map_reverse]
    exact List.nodup_reverse.mpr hn
  cases h : lookup k es with
  | none => simpa [lookup_eq_none] using h
  | some a => exact lookup_of_mem hr (List.mem_reverse.mpr (mem_of_lookup h))

theorem mem_of_get? {m : KeyMap α} {k : String} {a : α} (h : m.get? k = some a) :
    (k, a) ∈ m.entries := mem_of_lookup h

theorem get?_insertAll (m : KeyMap α) (es : List (String × α)) (k : String) :
    (m.insertAll es).get? k = (lookup k es.reverse).or (m.get? k) := by
  induction es generalizing m with
  | nil => simp [insertAll, lookup]
  | cons e es ih =>
    have hcons : m.insertAll (e :: es) = (m.insert e.1 e.2).insertAll es := rfl
    rw [hcons, ih, List.reverse_cons, lookup_append, Option.or_assoc, get?_insert]
    congr 1
    by_cases h : k = e.1
    · simp [lookup, h]
    · simp [lookup, h, Ne.symm h]

@[simp] theorem get?_ofList (es : List (String × α)) (k : String) :
    (ofList es).get? k = lookup k es.reverse := by
  simp [ofList, get?_insertAll]

theorem get?_union (m n : KeyMap α) (k : String) :
    (m.union n).get? k = (lookup k n.entries.reverse).or (m.get? k) := get?_insertAll m n.entries k

/-- An entry of an overwritten map stood in one of the two maps. -/
theorem mem_of_get?_union {m n : KeyMap α} {k : String} {a : α}
    (h : (m.union n).get? k = some a) : (k, a) ∈ n.entries ∨ m.get? k = some a := by
  rw [get?_union] at h
  cases hn : lookup k n.entries.reverse with
  | none => exact .inr (by simpa [hn] using h)
  | some b =>
    have hb : b = a := by simpa [hn] using h
    exact .inl (List.mem_reverse.mp (mem_of_lookup (hb ▸ hn)))

theorem get?_erase (m : KeyMap α) (j k : String) :
    (m.erase k).get? j = if j = k then none else m.get? j := by
  simp only [get?, erase]
  induction m.entries with
  | nil => simp [lookup]
  | cons e es ih =>
    by_cases he : e.1 = k
    · rw [List.filter_cons_of_neg (by simp [he]), ih]
      split
      next => rfl
      next hj => simp [lookup, he, Ne.symm hj]
    · rw [List.filter_cons_of_pos (by simp [he]), lookup, ih, lookup]
      split
      next hj => rw [if_neg (hj ▸ he)]
      next => rfl

theorem insertEntry_insertEntry (k : String) (a b : α) (es : List (String × α)) :
    insertEntry k b (insertEntry k a es) = insertEntry k b es := by
  induction es with
  | nil => simp [insertEntry]
  | cons e es ih =>
    simp only [insertEntry]
    split
    next => simp [insertEntry]
    split
    next => simp [insertEntry]
    next hne hlt => simp [insertEntry, hne, hlt, ih]

/-- The later of two bindings stays. -/
theorem insert_insert (m : KeyMap α) (k : String) (a b : α) :
    (m.insert k a).insert k b = m.insert k b := by
  simp [insert, insertEntry_insertEntry]

theorem mem_insertEntry {k : String} {a : α} {e : String × α} {es : List (String × α)}
    (h : e ∈ insertEntry k a es) : e = (k, a) ∨ e ∈ es := by
  induction es with
  | nil => exact .inl (by simpa [insertEntry] using h)
  | cons f es ih =>
    simp only [insertEntry] at h
    split at h
    next => exact (List.mem_cons.mp h).imp id (List.mem_cons_of_mem _)
    split at h
    next => exact List.mem_cons.mp h
    next =>
      rcases List.mem_cons.mp h with rfl | h
      · exact .inr List.mem_cons_self
      · exact (ih h).imp id (List.mem_cons_of_mem _)

theorem pairwise_insertEntry (k : String) (a : α) {es : List (String × α)}
    (h : es.Pairwise fun e f => e.1 < f.1) :
    (insertEntry k a es).Pairwise fun e f => e.1 < f.1 := by
  induction es with
  | nil => simp [insertEntry]
  | cons e es ih =>
    obtain ⟨he, hes⟩ := List.pairwise_cons.mp h
    simp only [insertEntry]
    split
    next hk => exact List.pairwise_cons.mpr ⟨fun f hf => hk ▸ he f hf, hes⟩
    split
    next hk =>
      refine List.pairwise_cons.mpr ⟨fun f hf => ?_, h⟩
      rcases List.mem_cons.mp hf with rfl | hf
      · exact hk
      · exact hk.trans (he f hf)
    next hne hk =>
      refine List.pairwise_cons.mpr ⟨fun f hf => ?_, ih hes⟩
      rcases mem_insertEntry hf with rfl | hf
      · exact lt_of_le_of_ne (not_lt.mp hk) (Ne.symm hne)
      · exact he f hf

theorem Sorted.insert {m : KeyMap α} (h : m.Sorted) (k : String) (a : α) :
    (m.insert k a).Sorted := pairwise_insertEntry k a h

theorem Sorted.insertAll {m : KeyMap α} (h : m.Sorted) (es : List (String × α)) :
    (m.insertAll es).Sorted := by
  induction es generalizing m with
  | nil => exact h
  | cons e es ih => exact ih (h.insert e.1 e.2)

theorem sorted_ofList (es : List (String × α)) : (ofList es).Sorted :=
  Sorted.insertAll List.Pairwise.nil es

theorem Sorted.union {m : KeyMap α} (h : m.Sorted) (n : KeyMap α) : (m.union n).Sorted :=
  h.insertAll n.entries

theorem Sorted.map {m : KeyMap α} (h : m.Sorted) (f : α → β) : (m.map f).Sorted :=
  List.pairwise_map.mpr h

theorem mem_insertAll {m : KeyMap α} {es : List (String × α)} {e : String × α}
    (h : e ∈ (m.insertAll es).entries) : e ∈ es ∨ e ∈ m.entries := by
  induction es generalizing m with
  | nil => exact .inr h
  | cons f es ih =>
    rcases ih h with hes | hinsert
    · exact .inl (List.mem_cons_of_mem _ hes)
    · rcases mem_insertEntry hinsert with rfl | hm
      · exact .inl List.mem_cons_self
      · exact .inr hm

theorem mem_ofList {es : List (String × α)} {e : String × α} (h : e ∈ (ofList es).entries) :
    e ∈ es := by
  rcases mem_insertAll h with hes | hempty
  · exact hes
  · exact absurd hempty List.not_mem_nil

theorem mem_keys_ofList {es : List (String × α)} {k : String} :
    k ∈ (ofList es).keys ↔ k ∈ es.map Prod.fst := by
  have hget : (ofList es).get? k = none ↔ k ∉ (ofList es).keys := lookup_eq_none
  rw [get?_ofList, lookup_eq_none, List.map_reverse, List.mem_reverse] at hget
  exact (not_iff_not.mp hget).symm

theorem get?_ofList_of_not_mem {es : List (String × α)} {k : String} (h : k ∉ es.map Prod.fst) :
    (ofList es).get? k = none := lookup_eq_none.mpr fun hmem => h (mem_keys_ofList.mp hmem)

/-- No key of a map in order is repeated. -/
theorem Sorted.nodup {m : KeyMap α} (h : m.Sorted) : (m.entries.map Prod.fst).Nodup :=
  List.pairwise_map.mpr (h.imp ne_of_lt)

theorem Sorted.get?_of_mem {m : KeyMap α} (h : m.Sorted) {e : String × α} (he : e ∈ m.entries) :
    m.get? e.1 = some e.2 := lookup_of_mem h.nodup he

/-- Maps in order that hold the same under every key are the same. -/
theorem Sorted.ext {m n : KeyMap α} (hm : m.Sorted) (hn : n.Sorted)
    (h : ∀ k, m.get? k = n.get? k) : m = n := by
  have hmem : ∀ e, e ∈ m.entries ↔ e ∈ n.entries := by
    intro e
    constructor
    · intro he
      exact mem_of_get? ((h e.1).symm.trans (hm.get?_of_mem he))
    · intro he
      exact mem_of_get? ((h e.1).trans (hn.get?_of_mem he))
  have hperm : m.entries.Perm n.entries :=
    (List.perm_ext_iff_of_nodup hm.nodup.of_map hn.nodup.of_map).mpr hmem
  have hentries : m.entries = n.entries :=
    hperm.eq_of_pairwise (fun _ _ _ _ hlt hgt => absurd hgt hlt.asymm) hm hn
  cases m
  cases n
  exact congrArg mk hentries

theorem Sorted.get?_union {m n : KeyMap α} (h : n.Sorted) (k : String) :
    (m.union n).get? k = (n.get? k).or (m.get? k) := by
  rw [KeyMap.get?_union, lookup_reverse h.nodup]
  rfl

theorem Sorted.filter {m : KeyMap α} (h : m.Sorted) (p : α → Bool) : (m.filter p).Sorted :=
  List.Pairwise.sublist List.filter_sublist h

/-- Without repeated keys a binding that is dropped uncovers no other. -/
theorem lookup_filter {es : List (String × α)} (hn : (es.map Prod.fst).Nodup) (p : α → Bool)
    (k : String) : lookup k (es.filter fun e => p e.2) = (lookup k es).filter p := by
  induction es with
  | nil => rfl
  | cons e es ih =>
    obtain ⟨hfresh, hn⟩ := List.nodup_cons.mp hn
    by_cases hk : e.1 = k
    · cases hp : p e.2 with
      | true => simp [lookup, hk, Option.filter, hp]
      | false =>
        have hnone : lookup k es = none := lookup_eq_none.mpr (hk ▸ hfresh)
        simp [lookup, hk, Option.filter, hp, ih hn, hnone]
    · cases hp : p e.2 <;> simp [lookup, hk, hp, ih hn]

theorem Sorted.get?_filter {m : KeyMap α} (h : m.Sorted) (p : α → Bool) (k : String) :
    (m.filter p).get? k = (m.get? k).filter p := lookup_filter h.nodup p k

theorem insertEntry_map (f : α → β) (k : String) (a : α) (es : List (String × α)) :
    (insertEntry k a es).map (fun e => (e.1, f e.2)) =
      insertEntry k (f a) (es.map fun e => (e.1, f e.2)) := by
  induction es with
  | nil => rfl
  | cons e es ih =>
    simp only [insertEntry, List.map_cons]
    split
    next => rfl
    split
    next => rfl
    next => rw [List.map_cons, ih]

theorem map_insertAll (f : α → β) (m : KeyMap α) (es : List (String × α)) :
    (m.insertAll es).map f = (m.map f).insertAll (es.map fun e => (e.1, f e.2)) := by
  induction es generalizing m with
  | nil => rfl
  | cons e es ih =>
    have hinsert : (m.insert e.1 e.2).map f = (m.map f).insert e.1 (f e.2) :=
      congrArg KeyMap.mk (insertEntry_map f e.1 e.2 m.entries)
    exact (ih (m.insert e.1 e.2)).trans (by rw [hinsert]; rfl)

theorem map_ofList (f : α → β) (es : List (String × α)) :
    (ofList es).map f = ofList (es.map fun e => (e.1, f e.2)) := map_insertAll f empty es

/-- An entry behind all others goes to the end. -/
theorem insertEntry_of_lt {k : String} (a : α) {es : List (String × α)}
    (h : ∀ e ∈ es, e.1 < k) : insertEntry k a es = es ++ [(k, a)] := by
  induction es with
  | nil => rfl
  | cons e es ih =>
    obtain ⟨he, hes⟩ := List.forall_mem_cons.mp h
    simp [insertEntry, he.ne', he.asymm, ih hes]

theorem insertAll_of_pairwise {m : KeyMap α} {es : List (String × α)}
    (h : (m.entries ++ es).Pairwise fun e f => e.1 < f.1) :
    m.insertAll es = ⟨m.entries ++ es⟩ := by
  induction es generalizing m with
  | nil => simp [insertAll]
  | cons e es ih =>
    have hlast : m.insert e.1 e.2 = ⟨m.entries ++ [e]⟩ := by
      rw [insert, insertEntry_of_lt e.2 fun f hf =>
        (List.pairwise_append.mp h).2.2 f hf e List.mem_cons_self]
    have hcons : m.entries ++ e :: es = (m.entries ++ [e]) ++ es := by simp
    rw [hcons] at h
    have hrest : (m.insert e.1 e.2).insertAll es = ⟨(m.entries ++ [e]) ++ es⟩ := by
      rw [hlast]
      exact ih h
    rw [hcons, ← hrest]
    rfl

/-- A map in order is made of its entries. -/
theorem Sorted.ofList_entries {m : KeyMap α} (h : m.Sorted) : ofList m.entries = m :=
  insertAll_of_pairwise (m := empty) h

theorem Sorted.get?_eq_some {m : KeyMap α} (h : m.Sorted) {k : String} {a : α} :
    m.get? k = some a ↔ (k, a) ∈ m.entries := ⟨mem_of_get?, h.get?_of_mem⟩

/-- A search in key order ends at the smallest key where it finds something. -/
theorem Sorted.findSome?_eq_some {m : KeyMap α} (h : m.Sorted) {f : String × α → Option β}
    {b : β} :
    m.entries.findSome? f = some b ↔ ∃ k a, m.get? k = some a ∧ f (k, a) = some b ∧
      ∀ k' < k, ∀ a', m.get? k' = some a' → f (k', a') = none := by
  simp only [h.get?_eq_some, List.findSome?_eq_some_iff]
  constructor
  · rintro ⟨before, ⟨k, a⟩, after, heq, hb, hbefore⟩
    refine ⟨k, a, by simp [heq], hb, fun k' hlt a' ha' => ?_⟩
    have hsorted : (before ++ (k, a) :: after).Pairwise fun e f => e.1 < f.1 := heq ▸ h
    rw [heq, List.mem_append, List.mem_cons] at ha'
    rcases ha' with hmem | hself | hafter
    · exact hbefore _ hmem
    · exact absurd (congrArg Prod.fst hself) hlt.ne
    · have hgt := (List.pairwise_cons.mp (List.pairwise_append.mp hsorted).2.1).1 _ hafter
      exact absurd hgt hlt.asymm
  · rintro ⟨k, a, ha, hb, hsmaller⟩
    obtain ⟨before, after, heq⟩ := List.append_of_mem ha
    refine ⟨before, (k, a), after, heq, hb, fun e he => ?_⟩
    have hsorted : (before ++ (k, a) :: after).Pairwise fun e f => e.1 < f.1 := heq ▸ h
    exact hsmaller e.1 ((List.pairwise_append.mp hsorted).2.2 e he _ List.mem_cons_self) e.2
      (by simp [heq, he])

/-- Under each key of a map made from entries is the last of them. -/
theorem get?_ofList_eq_getLast? (es : List (String × α)) (k : String) :
    (ofList es).get? k = (es.filter (·.1 = k)).getLast?.map Prod.snd := by
  rw [get?_ofList]
  induction es with
  | nil => rfl
  | cons e es ih =>
    rw [List.reverse_cons, lookup_append, ih, List.filter_cons]
    by_cases hk : e.1 = k
    · simp only [hk, decide_true, if_true, List.getLast?_cons, lookup]
      cases (es.filter (·.1 = k)).getLast? <;> rfl
    · simp [hk, lookup]

theorem size_ofList_eq_iff {es : List (String × α)} :
    (ofList es).size = es.length ↔ (es.map Prod.fst).Nodup := by
  have hperm : (ofList es).keys.Perm (es.map Prod.fst).dedup :=
    (List.perm_ext_iff_of_nodup (sorted_ofList es).nodup (List.nodup_dedup _)).mpr fun k => by
      rw [List.mem_dedup]
      exact mem_keys_ofList
  have hsize : (ofList es).size = (es.map Prod.fst).dedup.length := by
    rw [← hperm.length_eq, keys, List.length_map, size]
  rw [hsize, ← List.dedup_eq_self]
  constructor
  · intro hlength
    exact (List.dedup_sublist _).eq_of_length (by rw [hlength, List.length_map])
  · intro hself
    rw [hself, List.length_map]

section FilterMap
variable {γ : Type w} {r : γ → Option (String × β) → Prop} {name : γ → String} {xs : List γ}
  {os : List (Option (String × β))}

/-- Items that are processed one by one, some into entries under their names. -/
theorem keys_of_forall₂ (hname : ∀ x e, r x (some e) → e.1 = name x)
    (h : List.Forall₂ r xs os) :
    ((os.filterMap id).map Prod.fst).Sublist (xs.map name) := by
  induction h with
  | nil => exact .slnil
  | @cons x o xs os hx _ ih =>
    cases o with
    | none => exact .cons _ ih
    | some e =>
      have hentries : (some e :: os).filterMap id = e :: os.filterMap id := rfl
      rw [hentries, List.map_cons, List.map_cons, hname x e hx]
      exact .cons_cons _ ih

/-- With distinct names, the entry of an item is found under its name. -/
theorem lookup_of_forall₂ (hname : ∀ x e, r x (some e) → e.1 = name x)
    (h : List.Forall₂ r xs os) (hn : (xs.map name).Nodup) {x : γ} (hx : x ∈ xs) :
    ∃ o, r x o ∧ lookup (name x) (os.filterMap id) = o.map Prod.snd := by
  induction h with
  | nil => exact absurd hx List.not_mem_nil
  | @cons x' o xs os ho hxs ih =>
    obtain ⟨hfresh, hn⟩ := List.nodup_cons.mp hn
    rcases List.mem_cons.mp hx with rfl | hmem
    · refine ⟨o, ho, ?_⟩
      cases o with
      | none =>
        have hnone : name x ∉ (os.filterMap id).map Prod.fst :=
          fun hk => hfresh ((keys_of_forall₂ hname hxs).subset hk)
        simpa using lookup_eq_none.mpr hnone
      | some e => simp [lookup, hname x e ho]
    · obtain ⟨o', ho', hlookup⟩ := ih hn hmem
      refine ⟨o', ho', ?_⟩
      cases o with
      | none => simpa using hlookup
      | some e =>
        have hne : name x' ≠ name x := fun heq =>
          hfresh (heq ▸ List.mem_map_of_mem (f := name) hmem)
        simpa [lookup, hname x' e ho, hne] using hlookup

theorem forall₂_map_self {δ : Type x} (f : γ → δ) (xs : List γ) :
    List.Forall₂ (fun x y => f x = y) xs (xs.map f) := by
  rw [List.forall₂_map_right_iff, List.forall₂_same]
  intro x _
  rfl

/-- Entries that are picked one by one keep their keys. -/
theorem lookup_filterMap {f : String × α → Option (String × β)}
    (hkey : ∀ e e', f e = some e' → e'.1 = e.1) {es : List (String × α)}
    (hn : (es.map Prod.fst).Nodup) {e : String × α} (he : e ∈ es) :
    lookup e.1 (es.filterMap f) = (f e).map Prod.snd := by
  obtain ⟨o, rfl, hlookup⟩ := lookup_of_forall₂ hkey (forall₂_map_self f es) hn he
  rwa [List.filterMap_map, Function.id_comp] at hlookup

theorem keys_filterMap {f : String × α → Option (String × β)}
    (hkey : ∀ e e', f e = some e' → e'.1 = e.1) (es : List (String × α)) :
    ((es.filterMap f).map Prod.fst).Sublist (es.map Prod.fst) := by
  have hkeys := keys_of_forall₂ hkey (forall₂_map_self f es)
  rwa [List.filterMap_map, Function.id_comp] at hkeys

end FilterMap

end DocTables.KeyMap
