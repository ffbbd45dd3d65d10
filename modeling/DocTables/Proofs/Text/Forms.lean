import Mathlib.Computability.Language
import Mathlib.Data.List.TakeWhile
import Mathlib.Order.ConditionallyCompleteLattice.Basic
import DocTables.Text.Pattern

/-!
Written forms as languages, and readers that drop a form from the front of a text. What a reader
leaves may be restricted: a form of any length ends where the rest cannot continue it.
-/
namespace DocTables.Text
open scoped Computability
variable {p q : Char → Bool} {cs front rest : List Char} {c : Char}

/-- The texts of a single character of the class `p`. -/
def oneOf (p : Char → Bool) : Language Char := {cs | ∃ c, p c = true ∧ cs = [c]}

/-- The text of the character `c` alone. -/
def char (c : Char) : Language Char := oneOf (· == c)

/-- A text of the form `l`, or nothing. -/
def perhaps (l : Language Char) : Language Char := 1 + l

/-- One or more characters of the class `p`. -/
def oneOrMore (p : Char → Bool) : Language Char := oneOf p * (oneOf p)∗

/-- The texts of characters of the class `p`. -/
def allOf (p : Char → Bool) : Language Char := {cs | ∀ c ∈ cs, p c = true}

theorem mem_oneOf : cs ∈ oneOf p ↔ ∃ c, p c = true ∧ cs = [c] := Iff.rfl

theorem mem_allOf : cs ∈ allOf p ↔ ∀ c ∈ cs, p c = true := Iff.rfl

@[simp] theorem mem_char : cs ∈ char c ↔ cs = [c] := by
  simp [char, mem_oneOf]

@[simp] theorem mem_perhaps {l : Language Char} : cs ∈ perhaps l ↔ cs = [] ∨ cs ∈ l := by
  rw [perhaps, Language.mem_add, Language.mem_one]

theorem cons_mem_oneOf_mul {l : Language Char} :
    c :: cs ∈ oneOf p * l ↔ p c = true ∧ cs ∈ l := by
  rw [Language.mem_mul]
  constructor
  · rintro ⟨_, ⟨d, hd, rfl⟩, tail, htail, heq⟩
    obtain ⟨rfl, rfl⟩ := List.cons.inj heq
    exact ⟨hd, htail⟩
  · rintro ⟨hc, hcs⟩
    exact ⟨[c], ⟨c, hc, rfl⟩, cs, hcs, rfl⟩

theorem mem_oneOf_mul {l : Language Char} :
    cs ∈ oneOf p * l ↔ ∃ c tail, cs = c :: tail ∧ p c = true ∧ tail ∈ l := by
  cases cs with
  | nil => simp [Language.mem_mul, mem_oneOf]
  | cons d cs =>
    rw [cons_mem_oneOf_mul]
    constructor
    · rintro ⟨hd, hcs⟩
      exact ⟨d, cs, rfl, hd, hcs⟩
    · rintro ⟨_, _, heq, hd, hcs⟩
      obtain ⟨rfl, rfl⟩ := List.cons.inj heq
      exact ⟨hd, hcs⟩

theorem mem_char_mul {l : Language Char} : cs ∈ char c * l ↔ ∃ tail, cs = c :: tail ∧ tail ∈ l := by
  simp only [char, mem_oneOf_mul, beq_iff_eq]
  constructor
  · rintro ⟨_, tail, rfl, rfl, htail⟩
    exact ⟨tail, rfl, htail⟩
  · rintro ⟨tail, rfl, htail⟩
    exact ⟨c, tail, rfl, rfl, htail⟩

theorem mem_perhaps_mul {l m : Language Char} : cs ∈ perhaps l * m ↔ cs ∈ m ∨ cs ∈ l * m := by
  rw [perhaps, add_mul, one_mul, Language.mem_add]

theorem kstar_oneOf (p : Char → Bool) : (oneOf p)∗ = allOf p := by
  ext cs
  rw [Language.mem_kstar, mem_allOf]
  constructor
  · rintro ⟨pieces, rfl, hpieces⟩ c hc
    obtain ⟨piece, hpiece, hc⟩ := List.mem_flatten.mp hc
    obtain ⟨d, hd, rfl⟩ := hpieces piece hpiece
    rwa [List.mem_singleton.mp hc]
  · intro h
    have hflat : cs = (cs.map fun c => [c]).flatten := by
      rw [← List.flatMap_def]
      exact (List.flatMap_singleton' cs).symm
    refine ⟨cs.map fun c => [c], hflat, ?_⟩
    intro piece hpiece
    obtain ⟨c, hc, rfl⟩ := List.mem_map.mp hpiece
    exact ⟨c, h c hc, rfl⟩

theorem mem_oneOrMore : cs ∈ oneOrMore p ↔ cs ≠ [] ∧ ∀ c ∈ cs, p c = true := by
  rw [oneOrMore, kstar_oneOf, mem_oneOf_mul]
  cases cs with
  | nil => simp
  | cons c cs => simp [mem_allOf]

theorem mem_oneOrMore_mul {l : Language Char} : cs ∈ oneOrMore p * l ↔
    ∃ front rest, cs = front ++ rest ∧ front ≠ [] ∧ (∀ c ∈ front, p c = true) ∧ rest ∈ l := by
  simp only [Language.mem_mul, mem_oneOrMore]
  constructor
  · rintro ⟨front, ⟨hne, hfront⟩, rest, hrest, rfl⟩
    exact ⟨front, rest, rfl, hne, hfront, hrest⟩
  · rintro ⟨front, rest, rfl, hne, hfront, hrest⟩
    exact ⟨front, ⟨hne, hfront⟩, rest, hrest, rfl⟩

/-- Forms put together and restricted to a class of characters are restricted part by part. -/
theorem mul_inf_allOf (l m : Language Char) (q : Char → Bool) :
    (l * m) ⊓ allOf q = (l ⊓ allOf q) * (m ⊓ allOf q) := by
  ext cs
  simp only [Language.mem_inf, Language.mem_mul, mem_allOf]
  constructor
  · rintro ⟨⟨a, ha, b, hb, rfl⟩, h⟩
    rw [List.forall_mem_append] at h
    exact ⟨a, ⟨ha, h.1⟩, b, ⟨hb, h.2⟩, rfl⟩
  · rintro ⟨a, ⟨ha, hqa⟩, b, ⟨hb, hqb⟩, rfl⟩
    exact ⟨⟨a, ha, b, hb, rfl⟩, List.forall_mem_append.mpr ⟨hqa, hqb⟩⟩

theorem one_inf_allOf (q : Char → Bool) : 1 ⊓ allOf q = 1 := by
  ext cs
  simp +contextual [Language.mem_inf, mem_allOf]

theorem pow_inf_allOf (l : Language Char) (q : Char → Bool) (n : Nat) :
    (l ^ n) ⊓ allOf q = (l ⊓ allOf q) ^ n := by
  induction n with
  | zero => rw [pow_zero, pow_zero, one_inf_allOf]
  | succ n ih => rw [pow_succ, pow_succ, mul_inf_allOf, ih]

theorem add_inf_allOf (l m : Language Char) (q : Char → Bool) :
    (l + m) ⊓ allOf q = l ⊓ allOf q + m ⊓ allOf q := by
  ext cs
  simp only [Language.mem_inf, Language.mem_add, or_and_right]

theorem perhaps_inf_allOf (l : Language Char) (q : Char → Bool) :
    perhaps l ⊓ allOf q = perhaps (l ⊓ allOf q) := by
  rw [perhaps, add_inf_allOf, one_inf_allOf, perhaps]

theorem oneOf_inf_allOf (p q : Char → Bool) : oneOf p ⊓ allOf q = oneOf fun c => p c && q c := by
  ext cs
  simp only [Language.mem_inf, mem_oneOf, mem_allOf, Bool.and_eq_true]
  constructor
  · rintro ⟨⟨c, hc, rfl⟩, h⟩
    exact ⟨c, ⟨hc, h c List.mem_cons_self⟩, rfl⟩
  · rintro ⟨c, ⟨hc, hq⟩, rfl⟩
    exact ⟨⟨c, hc, rfl⟩, List.forall_mem_singleton.mpr hq⟩

theorem char_inf_allOf (h : q c = true) : char c ⊓ allOf q = char c := by
  ext cs
  simp +contextual [Language.mem_inf, mem_allOf, h]

theorem oneOrMore_inf_allOf (p q : Char → Bool) :
    oneOrMore p ⊓ allOf q = oneOrMore fun c => p c && q c := by
  ext cs
  simp only [mem_oneOrMore, Language.mem_inf, mem_allOf, Bool.and_eq_true, forall_and, and_assoc]

/-- A reader drops a text of the form `l`, and then leaves `rest`, for every rest that `ends` it. -/
def Reads (ends : List Char → Prop) (read : List Char → Option (List Char)) (l : Language Char) :
    Prop :=
  ∀ cs rest, ends rest → (read cs = some rest ↔ ∃ front ∈ l, front ++ rest = cs)

namespace Reads
variable {ends : List Char → Prop} {read next : List Char → Option (List Char)}
  {l m : Language Char}

/-- One form is read behind another. The first may end with anything. -/
theorem andThen (h : Reads (fun _ => True) read l) (hnext : Reads ends next m) :
    Reads ends (fun cs => (read cs).bind next) (l * m) := by
  intro cs rest hrest
  rw [Option.bind_eq_some_iff]
  constructor
  · rintro ⟨middle, hmiddle, hrest'⟩
    obtain ⟨a, ha, rfl⟩ := (h cs middle trivial).mp hmiddle
    obtain ⟨b, hb, rfl⟩ := (hnext middle rest hrest).mp hrest'
    exact ⟨a ++ b, Language.append_mem_mul ha hb, List.append_assoc a b rest⟩
  · rintro ⟨front, hfront, rfl⟩
    obtain ⟨a, ha, b, hb, rfl⟩ := Language.mem_mul.mp hfront
    rw [List.append_assoc]
    exact ⟨b ++ rest, (h _ _ trivial).mpr ⟨a, ha, rfl⟩, (hnext _ _ hrest).mpr ⟨b, hb, rfl⟩⟩

/-- A given number of characters of a class. -/
theorem skip (p : Char → Bool) (n : Nat) : Reads (fun _ => True) (Text.skip p n) (oneOf p ^ n) := by
  intro cs rest _
  induction n generalizing cs with
  | zero => simp [Text.skip, eq_comm]
  | succ n ih =>
    rw [pow_succ']
    cases cs with
    | nil => simp [Text.skip, mem_oneOf_mul]
    | cons c cs =>
      simp only [Text.skip, mem_oneOf_mul]
      split
      next hc =>
        rw [ih]
        constructor
        · rintro ⟨front, hfront, rfl⟩
          exact ⟨c :: front, ⟨c, front, rfl, hc, hfront⟩, rfl⟩
        · rintro ⟨_, ⟨d, front, rfl, -, hfront⟩, heq⟩
          exact ⟨front, hfront, (List.cons.inj heq).2⟩
      next hc =>
        constructor
        · exact nofun
        · rintro ⟨_, ⟨d, front, rfl, hd, -⟩, heq⟩
          obtain ⟨rfl, -⟩ := List.cons.inj heq
          exact absurd hd hc

theorem skipChar (c : Char) : Reads (fun _ => True) (Text.skipChar c) (char c) := by
  have h := skip (· == c) 1
  rwa [pow_one] at h

/-- A part with a mark in front of it, left out exactly where the mark is missing. -/
theorem skipPart (h : Reads ends read l) (hends : ∀ rest, ends rest → rest.head? ≠ some c) :
    Reads ends (Text.skipPart c read) (perhaps (char c * l)) := by
  intro cs rest hrest
  have hmarked : (∃ front ∈ perhaps (char c * l), front ++ rest = cs) ↔
      rest = cs ∨ ∃ front ∈ l, c :: (front ++ rest) = cs := by
    simp only [mem_perhaps, mem_char_mul]
    constructor
    · rintro ⟨_, rfl | ⟨front, rfl, hfront⟩, rfl⟩
      · exact .inl rfl
      · exact .inr ⟨front, hfront, rfl⟩
    · rintro (rfl | ⟨front, hfront, rfl⟩)
      · exact ⟨[], .inl rfl, rfl⟩
      · exact ⟨c :: front, .inr ⟨front, rfl, hfront⟩, rfl⟩
  rw [hmarked]
  cases cs with
  | nil => simp [Text.skipPart, eq_comm]
  | cons d cs =>
    rw [Text.skipPart]
    split
    next hd =>
      -- The mark is there, so the rest is not yet reached.
      have hne : rest ≠ d :: cs := by
        rintro rfl
        exact hends _ hrest (congrArg some hd)
      rw [h cs rest hrest, hd]
      simp only [hd ▸ hne, false_or, List.cons.injEq, true_and]
    next hd =>
      have hne : ∀ front ∈ l, c :: (front ++ rest) ≠ d :: cs := by
        intro front _ heq
        exact hd (List.cons.inj heq).1.symm
      rw [Option.some.injEq, or_iff_left (by simpa using hne)]
      exact eq_comm

/-- All characters of a class that come next. -/
theorem dropWhile (hends : ∀ rest, ends rest → ∀ c ∈ rest.head?, p c = false) :
    Reads ends (fun cs => some (cs.dropWhile p)) (oneOf p)∗ := by
  intro cs rest hrest
  rw [kstar_oneOf, Option.some.injEq]
  constructor
  · rintro rfl
    refine ⟨cs.takeWhile p, ?_, List.takeWhile_append_dropWhile⟩
    intro c hc
    exact List.mem_takeWhile_imp hc
  · rintro ⟨front, hfront, rfl⟩
    rw [List.dropWhile_append_of_pos hfront]
    cases rest with
    | nil => rfl
    | cons c rest =>
      have hc := hends _ hrest c rfl
      rw [List.dropWhile_cons_of_neg (by simp [hc])]

end Reads
end DocTables.Text
