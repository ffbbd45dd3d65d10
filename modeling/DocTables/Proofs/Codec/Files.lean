import DocTables.Proofs.Codec.ReadBack

/-!
Lists of files, whatever their entries are. An entry gives the file whose address it carries, but for
those that have an address of the store's own next to an `external` field without any: they are
passed over.
-/
namespace DocTables

section Partial
variable {α β : Type} {f g : α → Option β}

theorem length_filterMap_le_of (h : ∀ x, f x = g x ∨ f x = none) (xs : List α) :
    (xs.filterMap f).length ≤ (xs.filterMap g).length := by
  induction xs with
  | nil => exact le_rfl
  | cons x xs ih =>
    have hrest : (xs.filterMap g).length ≤ ((x :: xs).filterMap g).length :=
      ((List.sublist_cons_self x xs).filterMap g).length_le
    rcases h x with heq | hnone
    · rw [List.filterMap_cons, List.filterMap_cons, heq]
      cases g x with
      | none => exact ih
      | some y => exact Nat.succ_le_succ ih
    · rw [List.filterMap_cons_none hnone]
      exact ih.trans hrest

/-- A function that is defined less often gives a shorter list, unless it is defined as often on the
members. -/
theorem filterMap_eq_iff (h : ∀ x, f x = g x ∨ f x = none) {xs : List α} :
    xs.filterMap f = xs.filterMap g ↔ ∀ x ∈ xs, f x = g x := by
  induction xs with
  | nil => simp
  | cons x xs ih =>
    rw [List.forall_mem_cons, ← ih]
    by_cases heq : f x = g x
    · rw [List.filterMap_cons, List.filterMap_cons, heq]
      cases g x <;> simp
    · have hnone : f x = none := (h x).resolve_left heq
      obtain ⟨y, hy⟩ : ∃ y, g x = some y :=
        Option.ne_none_iff_exists'.mp fun hg => heq (hnone.trans hg.symm)
      rw [List.filterMap_cons_none hnone, List.filterMap_cons_some hy]
      refine ⟨fun hlists => ?_, fun hboth => absurd hboth.1 heq⟩
      have hlength := length_filterMap_le_of h xs
      rw [hlists, List.length_cons] at hlength
      omega

end Partial

namespace FileLink

/-- The address in a part of an entry. -/
def addressIn (part : String) (j : Json) : Option String := (j.get? part).bind (·.field? "url")

/-- The file whose address an entry carries, one outside the store before one of its own. Without a
name it has that of its address. -/
def carried? (j : Json) : Option FileLink :=
  (addressIn "external" j <|> addressIn "file" j).map (ofUrl (j.field? "name"))

/-- A file of the store's own whose entry has an `external` field too, which has no address. -/
def isHidden (j : Json) : Bool :=
  (j.get? "external").isSome && (addressIn "external" j).isNone && (addressIn "file" j).isSome

variable {j : Json} {entries : List Json}

theorem ofJson?_of_hidden (h : isHidden j = true) : ofJson? j = none := by
  simp only [isHidden, Bool.and_eq_true, Option.isSome_iff_exists, Option.isNone_iff_eq_none] at h
  obtain ⟨⟨⟨external, hexternal⟩, hnone⟩, -⟩ := h
  rw [addressIn, hexternal, Option.bind_some] at hnone
  simp [ofJson?, hexternal, hnone]

theorem ofJson?_of_not_hidden (h : isHidden j = false) : ofJson? j = carried? j := by
  unfold ofJson? carried? addressIn
  cases hexternal : j.get? "external" with
  | none => rfl
  | some external =>
    cases hurl : external.field? "url" with
    | some url => simp [hurl]
    | none =>
      have hfile : addressIn "file" j = none := by
        simpa [isHidden, addressIn, hexternal, hurl] using h
      unfold addressIn at hfile
      simp [hurl, hfile]

theorem ofJson?_eq (j : Json) : ofJson? j = carried? j ∨ ofJson? j = none := by
  cases h : isHidden j with
  | true => exact .inr (ofJson?_of_hidden h)
  | false => exact .inl (ofJson?_of_not_hidden h)

theorem carried?_of_hidden (h : isHidden j = true) : carried? j ≠ none := by
  simp only [isHidden, Bool.and_eq_true, Option.isSome_iff_exists] at h
  obtain ⟨-, url, hurl⟩ := h
  cases hexternal : addressIn "external" j <;> simp [carried?, hexternal, hurl]

/-- An entry is read as the file that it carries just if that is not hidden. -/
theorem ofJson?_eq_carried? : ofJson? j = carried? j ↔ isHidden j = false := by
  refine ⟨fun h => ?_, ofJson?_of_not_hidden⟩
  by_contra hhidden
  rw [Bool.not_eq_false] at hhidden
  rw [ofJson?_of_hidden hhidden] at h
  exact carried?_of_hidden hhidden h.symm

theorem filterMap_ofJson? (entries : List Json) :
    entries.filterMap ofJson? = (entries.filter fun j => !isHidden j).filterMap carried? := by
  rw [List.filterMap_filter]
  refine List.filterMap_congr fun j _ => ?_
  cases h : isHidden j with
  | true => exact ofJson?_of_hidden h
  | false => exact ofJson?_of_not_hidden h

theorem toValue_injective : Function.Injective toValue := by
  intro f g h
  have hname := congrArg (·.field? "name") h
  have hurl := congrArg (·.field? "url") h
  simp only [toValue, Value.field?_ofFields] at hname hurl
  cases f
  cases g
  simp_all [KeyMap.lookup]

end FileLink

namespace Codec
open FileLink

/-- A list of files is read entry by entry, in order, and each entry that is not hidden gives the
file it carries. So no file with an address is lost just when none is hidden. -/
theorem files_settle (w : Json) (entries : List Json)
    (h : w.get? PropertyType.files.key = some (.array entries)) :
    files.ofWire w = .ok (.array
      (((entries.filter fun j => !isHidden j).filterMap carried?).map toValue)) ∧
    (files.ofWire w = .ok (.array ((entries.filterMap carried?).map toValue)) ↔
      ∀ j ∈ entries, isHidden j = false) := by
  have hread : files.ofWire w = .ok (.array ((entries.filterMap ofJson?).map toValue)) := by
    simp [ofWire, wireItems, type, h, Json.items]
  refine ⟨by rw [hread, filterMap_ofJson?], ?_⟩
  rw [hread, Except.ok.injEq, Value.array.injEq, toValue_injective.list_map.eq_iff,
    filterMap_eq_iff ofJson?_eq]
  simp only [ofJson?_eq_carried?]

/-- A file of the store's own whose `external` field is null. -/
def hiddenEntry : Json :=
  .ofFields [("name", .string "x.png"), ("external", .null),
    ("file", .ofFields [("url", .string "https://s3/x.png")])]

/-- A file outside the store that has no name. -/
def namelessEntry : Json :=
  .ofFields [("external", .ofFields [("url", .string "https://x.org/a.png")])]

/-- Of a nameless file and a hidden one the first is read, under the name of its address. -/
theorem files_settle_nameless :
    (property .files (.array [namelessEntry, hiddenEntry])).get? PropertyType.files.key =
      some (.array [namelessEntry, hiddenEntry]) ∧
    files.ofWire (property .files (.array [namelessEntry, hiddenEntry])) =
      .ok (.array [.ofFields [("name", .string "a.png"), ("url", .string "https://x.org/a.png")]]) ∧
    isHidden hiddenEntry = true := by
  have hitems := get?_property .files (.array [namelessEntry, hiddenEntry])
  have hhidden : [namelessEntry, hiddenEntry].filter (fun j => !isHidden j) = [namelessEntry] := rfl
  have hname : carried? namelessEntry = some ⟨"a.png", "https://x.org/a.png"⟩ := rfl
  refine ⟨hitems, ?_, rfl⟩
  rw [(files_settle _ _ hitems).1, hhidden, List.filterMap_cons_some hname]
  rfl

/-- Not every file whose address is in its entry is read. -/
theorem not_forall_files_read :
    ¬ ∀ (w : Json) (entries : List Json), w.get? PropertyType.files.key = some (.array entries) →
      files.ofWire w = .ok (.array ((entries.filterMap carried?).map toValue)) := by
  intro h
  have hread := h _ _ (get?_property .files (.array [hiddenEntry]))
  have hnothing : files.ofWire (property .files (.array [hiddenEntry])) = .ok (.array []) := rfl
  have hcarried : carried? hiddenEntry = some ⟨"x.png", "https://s3/x.png"⟩ := rfl
  rw [hnothing, List.filterMap_cons_some hcarried] at hread
  simp at hread

end Codec
end DocTables
