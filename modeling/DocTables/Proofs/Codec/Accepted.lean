import DocTables.Codec.Wire
import DocTables.Proofs.KeyMap
import DocTables.Proofs.Outcome
import DocTables.Proofs.Text

/-!
What codecs accept: for each reader of values, the values it takes and what it makes of them.
-/
namespace DocTables
open Outcome

theorem Value.string?_eq_some {v : Value} {s : String} : v.string? = some s ↔ v = .string s := by
  cases v <;> simp [Value.string?]

@[simp] theorem Value.named?_string (s k : String) : (Value.string s).named? k = some s := rfl

/-- A name is taken by itself or from its field, trimmed, and is not empty. -/
theorem readName_eq_ok {field : String} {expected : Expected} {ifEmpty : Rejection} {v : Value}
    {s : String} :
    readName field expected ifEmpty v = .ok s ↔
      ∃ r, v.named? field = some r ∧ s = Text.trim r ∧ s ≠ "" := by
  unfold readName
  cases hr : v.named? field with
  | none => simp
  | some r =>
    by_cases he : Text.trim r = ""
    · simp [he]
    · simp only [he, if_false, Except.ok.injEq, Option.some.injEq, exists_eq_left']
      exact ⟨fun h => ⟨h.symm, h ▸ he⟩, fun h => h.1.symm⟩

/-- A name that is trimmed and not empty is read as it is. -/
theorem readName_string {field : String} {expected : Expected} {ifEmpty : Rejection} {s : String}
    (ht : Text.trim s = s) (he : s ≠ "") :
    readName field expected ifEmpty (.string s) = .ok s :=
  readName_eq_ok.mpr ⟨s, rfl, ht.symm, he⟩

namespace Choice

/-- The name is one of the declared ones, if there are any. -/
def Allowed (options : Option (List String)) (name : String) : Prop :=
  ∀ allowed ∈ options, name ∈ allowed

theorem check_eq_ok {options : Option (List String)} {name s : String} :
    check options name = .ok s ↔ s = name ∧ Allowed options name := by
  cases options with
  | none => simp [check, Allowed, eq_comm]
  | some allowed =>
    by_cases h : name ∈ allowed <;> simp [check, Allowed, h, eq_comm]

theorem read_eq_ok {options : Option (List String)} {v : Value} {s : String} :
    read options v = .ok s ↔
      ∃ r, v.named? "name" = some r ∧ s = Text.trim r ∧ s ≠ "" ∧ Allowed options s := by
  simp only [read, bind_eq_ok, readName_eq_ok, check_eq_ok]
  constructor
  · rintro ⟨_, ⟨r, hr, rfl, he⟩, rfl, ha⟩
    exact ⟨r, hr, rfl, he, ha⟩
  · rintro ⟨r, hr, rfl, he, ha⟩
    exact ⟨_, ⟨r, hr, rfl, he⟩, rfl, ha⟩

theorem dedup_filter (p : String → Bool) (ss : List String) :
    dedup (ss.filter p) = (dedup ss).filter p := by
  induction ss with
  | nil => rfl
  | cons s ss ih =>
    by_cases h : p s = true
    · simp only [List.filter_cons, h, if_true, dedup, ih, List.filter_filter]
      congr 1
      exact List.filter_congr fun t _ => Bool.and_comm _ _
    · simp only [List.filter_cons, h, dedup, List.filter_filter]
      rw [if_neg (by simp), if_neg (by simp), ih]
      refine List.filter_congr fun t _ => ?_
      by_cases ht : t = s
      · simp [ht, h]
      · simp [ht]

/-- The first occurrences are the ones that stay. -/
theorem dedup_eq : ∀ ss : List String, dedup ss = ss.eraseDups
  | [] => rfl
  | s :: ss => by
    have hs : (ss.filter fun b => !b == s) = ss.filter (· ≠ s) :=
      List.filter_congr fun b _ => by by_cases h : b = s <;> simp [h]
    have ih := dedup_eq (ss.filter (· ≠ s))
    rw [List.eraseDups_cons, hs, ← ih, dedup_filter, dedup]
termination_by ss => ss.length
decreasing_by exact Nat.lt_succ_of_le (List.length_filter_le _ _)

theorem dedup_sublist (ss : List String) : (dedup ss).Sublist ss := by
  induction ss with
  | nil => exact .slnil
  | cons s ss ih => exact (List.filter_sublist.trans ih).cons_cons s

/-- A list without repetitions stays as it is. -/
theorem dedup_dedup (ss : List String) : dedup (dedup ss) = dedup ss := by
  induction ss with
  | nil => rfl
  | cons s ss ih =>
    simp only [dedup, dedup_filter, ih, List.filter_filter, Bool.and_self]

end Choice

namespace FileLink

theorem read_eq_ok {v : Value} {f : FileLink} :
    read v = .ok f ↔
      ∃ r, v.named? "url" = some r ∧ Text.trim r ≠ "" ∧
        f = ofUrl (v.field? "name") (Text.trim r) := by
  simp only [read, bind_eq_ok, readName_eq_ok]
  constructor
  · rintro ⟨_, ⟨r, hr, rfl, he⟩, hf⟩
    exact ⟨r, hr, he, (Except.ok.inj hf).symm⟩
  · rintro ⟨r, hr, he, rfl⟩
    exact ⟨_, ⟨r, hr, rfl, he⟩, rfl⟩

end FileLink

namespace DateSpan

/-- Both ends are written as dates. -/
def Valid (d : DateSpan) : Prop :=
  Text.isDate Text.isDigit d.start.toList = true ∧
    ∀ finish ∈ d.finish, Text.isDate Text.isDigit finish.toList = true

theorem check_eq_ok {field : DateField} {s : String} {u : Unit} :
    check field s = .ok u ↔ Text.isDate Text.isDigit s.toList = true := by
  unfold check
  split <;> simp_all

theorem validate_eq_ok {d e : DateSpan} : d.validate = .ok e ↔ d.Valid ∧ e = d := by
  rw [@eq_comm _ e d]
  obtain ⟨start, finish, zone⟩ := d
  cases finish with
  | none => simp [validate, Valid, fmap_eq_ok, check_eq_ok, Option.forM]
  | some finish =>
    simp [validate, Valid, bind_eq_ok, fmap_eq_ok, check_eq_ok, Option.forM, and_assoc]

/-- A date is taken by itself or from the start of a map, with the texts of its other fields. -/
theorem ofValue_eq_ok {v : Value} {d : DateSpan} :
    ofValue v = .ok d ↔
      ∃ s, v.named? "start" = some s ∧ d.Valid ∧
        d = ⟨Text.trim s, (v.field? "end").map Text.trim, v.field? "time_zone"⟩ := by
  cases v with
  | string s =>
    simp only [ofValue, validate_eq_ok, Value.named?_string, Option.some.injEq, exists_eq_left']
    exact ⟨fun ⟨hv, hd⟩ => ⟨hd ▸ hv, hd⟩, fun ⟨hv, hd⟩ => ⟨hd ▸ hv, hd⟩⟩
  | map fields =>
    have hfield : ∀ k, (Value.map fields).field? k = (fields.get? k).bind Value.string? :=
      fun _ => rfl
    have hnamed : (Value.map fields).named? "start" = (Value.map fields).field? "start" := rfl
    rw [hnamed, hfield, hfield, hfield]
    cases hs : (fields.get? "start").bind Value.string? with
    | none => simp [ofValue, hs]
    | some s =>
      simp only [ofValue, hs, validate_eq_ok, Option.some.injEq, exists_eq_left']
      exact ⟨fun ⟨hv, hd⟩ => ⟨hd ▸ hv, hd⟩, fun ⟨hv, hd⟩ => ⟨hd ▸ hv, hd⟩⟩
  | null => simp [ofValue, Value.named?, Value.field?, Value.get?]
  | bool => simp [ofValue, Value.named?, Value.field?, Value.get?]
  | int => simp [ofValue, Value.named?, Value.field?, Value.get?]
  | float => simp [ofValue, Value.named?, Value.field?, Value.get?]
  | array => simp [ofValue, Value.named?, Value.field?, Value.get?]

end DateSpan

namespace Codec

theorem readText_eq_ok {v : Value} {s : String} :
    readText v = .ok s ↔ ∃ r, v = .string r ∧ s = Text.trim r := by
  unfold readText
  cases v <;> simp [Value.string?, eq_comm]

theorem readContact_eq_ok {kind : ContactKind} {v : Value} {s : String} :
    readContact kind v = .ok s ↔
      ∃ r, v = .string r ∧ s = Text.trim r ∧ s ≠ "" ∧ contactMatches kind s = true := by
  simp only [readContact, bind_eq_ok, readText_eq_ok]
  constructor
  · rintro ⟨_, ⟨r, hr, rfl⟩, h⟩
    split at h
    next => simp at h
    next he =>
      split at h
      next hm =>
        obtain rfl := Except.ok.inj h
        exact ⟨r, hr, rfl, he, hm⟩
      next => simp at h
  · rintro ⟨r, hr, rfl, he, hm⟩
    exact ⟨_, ⟨r, hr, rfl⟩, by simp [he, hm]⟩

theorem readNumber_eq_ok {v : Value} {j : Json} :
    readNumber v = .ok j ↔
      (∃ n, v = .int n ∧ j = .int n.toInt) ∨ ∃ x : Finite64, v = .float x.val ∧ j = .real x := by
  cases v with
  | int n => simp [readNumber, eq_comm]
  | float x =>
    by_cases hx : x.isFinite = true
    · simp only [readNumber, Binary64.finite?, hx, dif_pos, Option.elim_some, Except.ok.injEq]
      refine ⟨fun h => .inr ⟨⟨x, hx⟩, rfl, h.symm⟩, ?_⟩
      rintro (⟨_, h, _⟩ | ⟨y, hy, rfl⟩)
      · simp at h
      · obtain rfl : x = y.val := by simpa using hy
        rfl
    · simp only [readNumber, Binary64.finite?, hx]
      refine ⟨fun h => by simp at h, ?_⟩
      rintro (⟨_, h, _⟩ | ⟨y, hy, rfl⟩)
      · simp at h
      · obtain rfl : x = y.val := by simpa using hy
        exact absurd y.finite hx
  | null => simp [readNumber]
  | bool => simp [readNumber]
  | string => simp [readNumber]
  | array => simp [readNumber]
  | map => simp [readNumber]

end Codec
end DocTables
