import Mathlib.Data.List.TakeWhile
import DocTables.Text.LowerCase

/-!
The lower case of a part of a text. It is the lower case of the part by itself just when every
capital sigma in it has the same form in both places; all other characters are on their own.
-/
namespace DocTables.Text
variable {before before' cs after after' : List Char}

/-- A sigma between two texts is final. The text before it is given nearest first. -/
def isFinal (before after : List Char) : Bool := startsCased before && !startsCased after

/-- The lower case of a character between two texts. -/
def lowerAt (before : List Char) (c : Char) (after : List Char) : List Char :=
  if c = 'Σ' then [if isFinal before after then 'ς' else 'σ'] else lowerChar c

/-- The lower case of a text between two others. -/
def lowerWithin (before : List Char) : (cs after : List Char) → List Char
  | [], _ => []
  | c :: cs, after => lowerAt before c (cs ++ after) ++ lowerWithin (c :: before) cs after

theorem lowerAfter_cons (before : List Char) (c : Char) (cs : List Char) :
    lowerAfter before (c :: cs) = lowerAt before c cs ++ lowerAfter (c :: before) cs := rfl

theorem lowerAfter_append (before cs after : List Char) :
    lowerAfter before (cs ++ after) =
      lowerWithin before cs after ++ lowerAfter (cs.reverse ++ before) after := by
  induction cs generalizing before with
  | nil => rfl
  | cons c cs ih =>
    rw [List.cons_append, lowerAfter_cons, ih, lowerWithin, List.append_assoc, List.reverse_cons,
      List.append_assoc, List.singleton_append]

theorem lowerWithin_nil (before cs : List Char) :
    lowerWithin before cs [] = lowerAfter before cs := by
  have happend := lowerAfter_append before cs []
  rwa [List.append_nil, lowerAfter, List.append_nil, eq_comm] at happend

/-- A part of a text shows in lower case where it stands. -/
theorem lowerWithin_infix (before cs after : List Char) :
    lowerWithin before.reverse cs after <:+: lowerChars (before ++ cs ++ after) := by
  rw [lowerChars, List.append_assoc, lowerAfter_append, lowerAfter_append, List.append_nil]
  exact List.infix_append' ..

theorem length_lowerAt (before before' after after' : List Char) (c : Char) :
    (lowerAt before c after).length = (lowerAt before' c after').length := by
  unfold lowerAt
  split <;> rfl

theorem lowerAt_inj (c : Char) : lowerAt before c after = lowerAt before' c after' ↔
    (c = 'Σ' → isFinal before after = isFinal before' after') := by
  unfold lowerAt
  by_cases hc : c = 'Σ'
  · rw [if_pos hc, if_pos hc, forall_prop_of_true hc]
    cases isFinal before after <;> cases isFinal before' after' <;> decide
  · rw [if_neg hc, if_neg hc]
    exact ⟨fun _ h => absurd h hc, fun _ => rfl⟩

/-- Every capital sigma of a text has the same form between two pairs of texts. -/
def SameSigmas (before before' cs after after' : List Char) : Prop :=
  ∀ front rest, cs = front ++ 'Σ' :: rest →
    isFinal (front.reverse ++ before) (rest ++ after) =
      isFinal (front.reverse ++ before') (rest ++ after')

theorem sameSigmas_cons {c : Char} : SameSigmas before before' (c :: cs) after after' ↔
    (c = 'Σ' → isFinal before (cs ++ after) = isFinal before' (cs ++ after')) ∧
      SameSigmas (c :: before) (c :: before') cs after after' := by
  constructor
  · intro h
    refine ⟨?_, fun front rest hcs => ?_⟩
    · rintro rfl
      exact h [] cs rfl
    · have hcons := h (c :: front) rest (by rw [hcs, List.cons_append])
      simpa using hcons
  · rintro ⟨hfirst, hlater⟩ front rest hcs
    rcases List.cons_eq_append_iff.mp hcs with ⟨rfl, hhere⟩ | ⟨front, rfl, hthere⟩
    · obtain ⟨hc, hrest⟩ := List.cons.inj hhere
      rw [hrest]
      exact hfirst hc.symm
    · simpa using hlater front rest hthere

theorem lowerWithin_inj : lowerWithin before cs after = lowerWithin before' cs after' ↔
    SameSigmas before before' cs after after' := by
  induction cs generalizing before before' with
  | nil => exact ⟨fun _ front rest h => by simp at h, fun _ => rfl⟩
  | cons c cs ih =>
    rw [lowerWithin, lowerWithin, sameSigmas_cons, ← ih, ← lowerAt_inj]
    constructor
    · intro h
      exact List.append_inj h (length_lowerAt ..)
    · rintro ⟨hfirst, hlater⟩
      rw [hfirst, hlater]

/-- Between other texts a text has the lower case that it has by itself just when its sigmas have
the forms that they have there. -/
theorem lowerWithin_eq_iff : lowerWithin before cs after = lowerChars cs ↔
    SameSigmas before [] cs after [] := by
  rw [lowerChars, ← lowerWithin_nil, lowerWithin_inj]

/-- A text has a character at which the search for a letter with case ends. -/
def Decides (cs : List Char) : Prop := ∃ c ∈ cs, isCaseIgnorable c = false

theorem startsCased_append (h : Decides cs) (after : List Char) :
    startsCased (cs ++ after) = startsCased cs := by
  obtain ⟨c, hc, hends⟩ := h
  have hsome : cs.dropWhile isCaseIgnorable ≠ [] := fun hnone =>
    Bool.false_ne_true (hends.symm.trans (List.dropWhile_eq_nil_iff.mp hnone c hc))
  obtain ⟨d, rest, hrest⟩ := List.exists_cons_of_ne_nil hsome
  rw [startsCased, startsCased, List.dropWhile_append, hrest]
  rfl

theorem startsCased_append_of_not (h : ¬ Decides cs) (after : List Char) :
    startsCased (cs ++ after) = startsCased after := by
  have hnone : cs.dropWhile isCaseIgnorable = [] := by
    rw [List.dropWhile_eq_nil_iff]
    intro c hc
    by_contra hends
    exact h ⟨c, hc, Bool.eq_false_iff.mpr hends⟩
  rw [startsCased, startsCased, List.dropWhile_append, hnone]
  rfl

theorem startsCased_of_not (h : ¬ Decides cs) : startsCased cs = false := by
  have hnil := startsCased_append_of_not h []
  rwa [List.append_nil] at hnil

/-- The form of each sigma is decided within the text: a letter with case comes next, or something
stands before the sigma and it is no such letter, or something stands on both sides. -/
def Settled (cs : List Char) : Prop :=
  ∀ front rest, cs = front ++ 'Σ' :: rest →
    startsCased rest = true ∨
      Decides front.reverse ∧ (startsCased front.reverse = false ∨ Decides rest)

/-- Then, and only then, do the sigmas of a text have the same forms wherever it stands. -/
theorem settled_iff : Settled cs ↔ ∀ before after, SameSigmas before [] cs after [] := by
  have hletter : startsCased ['a'] = true := by decide +kernel
  constructor
  · intro h before after front rest hcs
    rw [List.append_nil, List.append_nil, isFinal, isFinal]
    rcases h front rest hcs with hnext | ⟨hfront, hbefore | hrest⟩
    · have hdecides : Decides rest := by
        by_contra hnone
        exact Bool.false_ne_true ((startsCased_of_not hnone).symm.trans hnext)
      rw [startsCased_append hdecides, hnext, Bool.not_true, Bool.and_false, Bool.and_false]
    · rw [startsCased_append hfront, hbefore, Bool.false_and, Bool.false_and]
    · rw [startsCased_append hfront, startsCased_append hrest]
  · intro h front rest hcs
    by_contra hloose
    obtain ⟨hnext, hfront⟩ := not_or.mp hloose
    rw [Bool.not_eq_true] at hnext
    by_cases hdecides : Decides front.reverse
    · -- Final by itself, but not before a letter.
      obtain ⟨hbefore, hrest⟩ := not_or.mp fun hor => hfront ⟨hdecides, hor⟩
      have hsame := h [] ['a'] front rest hcs
      rw [List.append_nil, List.append_nil, isFinal, isFinal, startsCased_append_of_not hrest,
        eq_true_of_ne_false hbefore, hnext, hletter] at hsame
      exact nomatch hsame
    · -- Not final by itself, but behind a letter.
      have hsame := h ['a'] [] front rest hcs
      rw [List.append_nil, List.append_nil, isFinal, isFinal, startsCased_append_of_not hdecides,
        startsCased_of_not hdecides, hnext, hletter] at hsame
      exact nomatch hsame

end DocTables.Text
