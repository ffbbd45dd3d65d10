import Mathlib.Data.List.Induction
import Mathlib.Order.Basic
import DocTables.StableSort

/-!
Sorting by insertion. Members that tie stay in the order that they had, whatever else is compared.
Where the comparison is a total preorder, nothing ends up before what it is greater than.
-/
namespace DocTables

/-- A comparison is a total preorder on the members of a list. -/
structure TotalPreorder {α : Type u} (compare : α → α → Ordering) (xs : List α) : Prop where
  refl : ∀ a ∈ xs, compare a a = .eq
  swap : ∀ a ∈ xs, ∀ b ∈ xs, compare b a = (compare a b).swap
  trans : ∀ a ∈ xs, ∀ b ∈ xs, ∀ c ∈ xs, compare a b ≠ .gt → compare b c ≠ .gt → compare a c ≠ .gt

namespace TotalPreorder
variable {α : Type u} {f g : α → α → Ordering} {xs ys : List α} {a b c : α}

theorem ne_gt_of_ne_lt (h : TotalPreorder f xs) (ha : a ∈ xs) (hb : b ∈ xs) (hab : f a b ≠ .lt) :
    f b a ≠ .gt := by
  rw [h.swap a ha b hb]
  exact fun hgt => hab (Ordering.swap_inj.mp hgt)

theorem lt_of_lt_of_le (h : TotalPreorder f xs) (ha : a ∈ xs) (hb : b ∈ xs) (hc : c ∈ xs)
    (hab : f a b = .lt) (hbc : f b c ≠ .gt) : f a c = .lt := by
  by_contra hac
  have hba := h.trans b hb c hc a ha hbc (h.ne_gt_of_ne_lt ha hc hac)
  rw [h.swap a ha b hb, hab] at hba
  exact hba rfl

theorem lt_of_le_of_lt (h : TotalPreorder f xs) (ha : a ∈ xs) (hb : b ∈ xs) (hc : c ∈ xs)
    (hab : f a b ≠ .gt) (hbc : f b c = .lt) : f a c = .lt := by
  by_contra hac
  have hcb := h.trans c hc a ha b hb (h.ne_gt_of_ne_lt ha hc hac) hab
  rw [h.swap b hb c hc, hbc] at hcb
  exact hcb rfl

theorem eq_trans (h : TotalPreorder f xs) (ha : a ∈ xs) (hb : b ∈ xs) (hc : c ∈ xs)
    (hab : f a b = .eq) (hbc : f b c = .eq) : f a c = .eq := by
  have hac : f a c ≠ .gt := h.trans a ha b hb c hc (by simp [hab]) (by simp [hbc])
  have hca : f c a ≠ .gt := by
    apply h.trans c hc b hb a ha
    · simp [h.swap b hb c hc, hbc]
    · simp [h.swap a ha b hb, hab]
  rw [h.swap a ha c hc] at hca
  cases hfac : f a c <;> simp_all

theorem mono (h : TotalPreorder f xs) (hsub : ∀ x ∈ ys, x ∈ xs) : TotalPreorder f ys :=
  ⟨fun a ha => h.refl a (hsub a ha), fun a ha b hb => h.swap a (hsub a ha) b (hsub b hb),
    fun a ha b hb c hc => h.trans a (hsub a ha) b (hsub b hb) c (hsub c hc)⟩

theorem ties (xs : List α) : TotalPreorder (fun _ _ => .eq) xs :=
  ⟨fun _ _ => rfl, fun _ _ _ _ => rfl, fun _ _ _ _ _ _ _ _ => nofun⟩

theorem then_ne_gt {o p : Ordering} : o.then p ≠ .gt ↔ o = .lt ∨ o = .eq ∧ p ≠ .gt := by
  cases o <;> simp [Ordering.then]

/-- A second comparison decides where the first one ties. -/
theorem thenBy (hf : TotalPreorder f xs) (hg : TotalPreorder g xs) :
    TotalPreorder (fun a b => (f a b).then (g a b)) xs := by
  refine ⟨fun a ha => ?_, fun a ha b hb => ?_, fun a ha b hb c hc hab hbc => ?_⟩
  · simp [hf.refl a ha, hg.refl a ha]
  · simp only [hf.swap a ha b hb, hg.swap a ha b hb, Ordering.swap_then]
  · rw [then_ne_gt] at hab hbc ⊢
    rcases hab with hab | ⟨hab, hgab⟩
    · refine .inl (hf.lt_of_lt_of_le ha hb hc hab ?_)
      rcases hbc with hbc | ⟨hbc, -⟩ <;> simp [hbc]
    · rcases hbc with hbc | ⟨hbc, hgbc⟩
      · exact .inl (hf.lt_of_le_of_lt ha hb hc (by simp [hab]) hbc)
      · exact .inr ⟨hf.eq_trans ha hb hc hab hbc, hg.trans a ha b hb c hc hgab hgbc⟩

end TotalPreorder

namespace StableSort
variable {α : Type u} {less : α → α → Bool} {p : α → Bool} {f : α → α → Ordering} {x : α}
  {xs ys : List α}

theorem insertFromLast_perm (less : α → α → Bool) (x : α) (ys : List α) :
    (insertFromLast less x ys).Perm (x :: ys) := by
  induction ys with
  | nil => exact .refl _
  | cons y ys ih =>
    unfold insertFromLast
    split
    · exact (ih.cons y).trans (.swap x y ys)
    · exact .refl _

theorem sort_concat (less : α → α → Bool) (xs : List α) (x : α) :
    sort less (xs ++ [x]) = (insertFromLast less x (sort less xs).reverse).reverse := by
  simp [sort]

/-- Sorting loses nothing and repeats nothing. -/
theorem sort_perm (less : α → α → Bool) (xs : List α) : (sort less xs).Perm xs := by
  induction xs using List.reverseRecOn with
  | nil => exact .refl _
  | append_singleton xs x ih =>
    rw [sort_concat]
    refine (List.reverse_perm _).trans ((insertFromLast_perm less x _).trans ?_)
    exact (((List.reverse_perm _).trans ih).cons x).trans (List.perm_append_singleton x xs).symm

/-- A member only passes what it is less than. -/
theorem filter_insertFromLast (h : p x = true → ∀ y ∈ ys, p y = true → less x y = false) :
    (insertFromLast less x ys).filter p = (x :: ys).filter p := by
  induction ys with
  | nil => rfl
  | cons y ys ih =>
    unfold insertFromLast
    split
    next hless =>
      have hxy : ¬ (p x = true ∧ p y = true) := fun ⟨hx, hy⟩ => by
        simp [h hx y List.mem_cons_self hy] at hless
      have hrest := ih fun hx z hz => h hx z (List.mem_cons_of_mem y hz)
      rw [List.filter_cons, hrest]
      cases hx : p x <;> cases hy : p y <;> simp_all
    next => rfl

/-- Members among which nothing is less stay in the order that they had. -/
theorem filter_sort (h : ∀ x ∈ xs, ∀ y ∈ xs, p x = true → p y = true → less x y = false) :
    (sort less xs).filter p = xs.filter p := by
  induction xs using List.reverseRecOn with
  | nil => rfl
  | append_singleton xs x ih =>
    have hx : x ∈ xs ++ [x] := by simp
    have hxs : ∀ y ∈ xs, y ∈ xs ++ [x] := fun y hy => List.mem_append_left _ hy
    have hinsert : (insertFromLast less x (sort less xs).reverse).filter p =
        (x :: (sort less xs).reverse).filter p := by
      refine filter_insertFromLast fun hpx y hy hpy => ?_
      have hy : y ∈ xs := (sort_perm less xs).mem_iff.mp (List.mem_reverse.mp hy)
      exact h x hx y (hxs y hy) hpx hpy
    have hsorted := ih fun y hy z hz => h y (hxs y hy) z (hxs z hz)
    rw [sort_concat, List.filter_reverse, hinsert, ← List.filter_reverse, List.reverse_cons,
      List.reverse_reverse, List.filter_append, hsorted, List.filter_append]

/-- Where nothing is less than anything, nothing moves. -/
theorem sort_eq_self (h : ∀ x ∈ xs, ∀ y ∈ xs, less x y = false) : sort less xs = xs := by
  have hall := filter_sort (p := fun _ => true) fun x hx y hy _ _ => h x hx y hy
  rwa [List.filter_eq_self.mpr fun _ _ => rfl, List.filter_eq_self.mpr fun _ _ => rfl] at hall

/-- A member goes behind everything that it is not less than. The list is given from its last
member on. -/
theorem pairwise_insertFromLast (h : TotalPreorder f (x :: ys))
    (hs : ys.Pairwise fun y z => f z y ≠ .gt) :
    (insertFromLast (fun a b => f a b == .lt) x ys).Pairwise fun y z => f z y ≠ .gt := by
  induction ys with
  | nil => exact List.pairwise_singleton _ x
  | cons y ys ih =>
    obtain ⟨hy, hys⟩ := List.pairwise_cons.mp hs
    have hmem : ∀ z ∈ x :: ys, z ∈ x :: y :: ys := by
      simp only [List.mem_cons]
      tauto
    unfold insertFromLast
    split
    next hless =>
      have hxy : f x y = .lt := by simpa using hless
      refine List.pairwise_cons.mpr ⟨fun z hz => ?_, ih (h.mono hmem) hys⟩
      rcases List.mem_cons.mp ((insertFromLast_perm _ x ys).mem_iff.mp hz) with rfl | hz
      · simp [hxy]
      · exact hy z hz
    next hless =>
      have hyx : f y x ≠ .gt := h.ne_gt_of_ne_lt (by simp) (by simp) (by simpa using hless)
      refine List.pairwise_cons.mpr ⟨fun z hz => ?_, hs⟩
      rcases List.mem_cons.mp hz with rfl | hzs
      · exact hyx
      · exact h.trans z (hmem z (by simp [hzs])) y (by simp) x (by simp) (hy z hzs) hyx

/-- Nothing comes before what it is less than. -/
theorem pairwise_sort (h : TotalPreorder f xs) :
    (sort (fun a b => f a b == .lt) xs).Pairwise fun a b => f a b ≠ .gt := by
  induction xs using List.reverseRecOn with
  | nil => exact .nil
  | append_singleton xs x ih =>
    have hsorted := ih (h.mono fun y hy => List.mem_append_left _ hy)
    rw [sort_concat, List.pairwise_reverse]
    refine pairwise_insertFromLast (h.mono fun y hy => ?_) (List.pairwise_reverse.mpr hsorted)
    rcases List.mem_cons.mp hy with rfl | hy
    · simp
    · exact List.mem_append_left _ ((sort_perm _ xs).mem_iff.mp (List.mem_reverse.mp hy))

end StableSort
end DocTables
