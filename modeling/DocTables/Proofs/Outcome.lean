import Mathlib.Data.List.Forall2

/-! When computations that may fail succeed, and with what. -/
namespace DocTables.Outcome
variable {ε ε' α β γ : Type}

theorem bind_eq_ok {x : Except ε α} {f : α → Except ε β} {b : β} :
    (x >>= f) = .ok b ↔ ∃ a, x = .ok a ∧ f a = .ok b := by
  cases x <;> simp [bind, Except.bind]

theorem map_eq_ok {x : Except ε α} {f : α → β} {b : β} :
    x.map f = .ok b ↔ ∃ a, x = .ok a ∧ f a = b := by
  cases x <;> simp [Except.map]

theorem fmap_eq_ok {x : Except ε α} {f : α → β} {b : β} :
    f <$> x = .ok b ↔ ∃ a, x = .ok a ∧ f a = b := map_eq_ok

theorem mapError_eq_ok {x : Except ε α} {f : ε → ε'} {a : α} :
    x.mapError f = .ok a ↔ x = .ok a := by
  cases x <;> simp [Except.mapError]

/-- A list is processed when each of its items is. -/
theorem mapM_eq_ok {f : α → Except ε β} {xs : List α} {ys : List β} :
    xs.mapM f = .ok ys ↔ List.Forall₂ (fun x y => f x = .ok y) xs ys := by
  induction xs generalizing ys with
  | nil =>
    rw [List.mapM_nil, List.forall₂_nil_left_iff]
    exact ⟨fun h => (Except.ok.inj h).symm, fun h => h ▸ rfl⟩
  | cons x xs ih =>
    rw [List.mapM_cons, bind_eq_ok]
    constructor
    · rintro ⟨y, hy, h⟩
      obtain ⟨zs, hzs, h⟩ := bind_eq_ok.mp h
      obtain rfl := Except.ok.inj h
      exact .cons hy (ih.mp hzs)
    · intro h
      obtain ⟨y, zs, hy, hzs, rfl⟩ := List.forall₂_cons_left_iff.mp h
      exact ⟨y, hy, bind_eq_ok.mpr ⟨zs, ih.mpr hzs, rfl⟩⟩

theorem mapM_total {f : α → Except ε β} {xs : List α} (h : ∀ x ∈ xs, ∃ y, f x = .ok y) :
    ∃ ys, xs.mapM f = .ok ys := by
  induction xs with
  | nil => exact ⟨[], rfl⟩
  | cons x xs ih =>
    obtain ⟨⟨y, hy⟩, hxs⟩ := List.forall_mem_cons.mp h
    obtain ⟨ys, hys⟩ := ih hxs
    exact ⟨y :: ys, mapM_eq_ok.mpr (.cons hy (mapM_eq_ok.mp hys))⟩

/-- The first item that is refused decides how the processing of a list fails. -/
theorem mapM_eq_error {f : α → Except ε β} {refusal? : α → Option ε}
    (hrefused : ∀ x e, refusal? x = some e → f x = .error e)
    (haccepted : ∀ x, refusal? x = none → ∃ y, f x = .ok y) {xs : List α} {e : ε}
    (h : xs.findSome? refusal? = some e) : xs.mapM f = .error e := by
  induction xs with
  | nil => exact nomatch h
  | cons x xs ih =>
    rw [List.mapM_cons]
    cases hx : refusal? x with
    | some e' =>
      rw [List.findSome?_cons, hx] at h
      rw [hrefused x e' hx, Option.some.inj h]
      rfl
    | none =>
      rw [List.findSome?_cons, hx] at h
      obtain ⟨y, hy⟩ := haccepted x hx
      rw [hy, ih h]
      rfl

/-- The error that a computation ends with, if it fails. -/
def failure? : Except ε α → Option ε
  | .ok _ => none
  | .error e => some e

theorem failure?_eq_none {x : Except ε α} : failure? x = none ↔ ∃ a, x = .ok a := by
  cases x <;> simp [failure?]

theorem failure?_eq_some {x : Except ε α} {e : ε} : failure? x = some e ↔ x = .error e := by
  cases x <;> simp [failure?]

@[simp] theorem failure?_map (f : α → β) (x : Except ε α) : failure? (x.map f) = failure? x := by
  cases x <;> rfl

/-- A list fails as the first of its items that fails. -/
theorem failure?_mapM (f : α → Except ε β) (xs : List α) :
    failure? (xs.mapM f) = xs.findSome? fun x => failure? (f x) := by
  induction xs with
  | nil => rfl
  | cons x xs ih =>
    rw [List.mapM_cons, List.findSome?_cons]
    cases hx : f x with
    | error e => rfl
    | ok y =>
      rw [show failure? (.ok y : Except ε β) = none from rfl, ← ih]
      cases xs.mapM f <;> rfl

/-- What is good or bad, and fails for nothing but the bad, is settled. -/
theorem settled {o : Option ε} {good : Prop} {bad : ε → Prop} (split : good ∨ ∃ e, bad e)
    (accepted : good → o = none) (refused : ∀ e, bad e → o = some e) :
    (o = none ↔ good) ∧ ∀ e, o = some e ↔ bad e := by
  refine ⟨⟨fun h => ?_, accepted⟩, fun e => ⟨fun h => ?_, refused e⟩⟩
  · obtain hgood | ⟨e, he⟩ := split
    · exact hgood
    · exact nomatch h.symm.trans (refused e he)
  · obtain hgood | ⟨e', he'⟩ := split
    · exact nomatch h.symm.trans (accepted hgood)
    · obtain rfl := Option.some.inj (h.symm.trans (refused e' he'))
      exact he'

/-- A list whose items all read back is processed into itself. -/
theorem mapM_map_eq_ok {f : α → Except ε β} {g : β → α} {ys : List β}
    (h : ∀ y ∈ ys, f (g y) = .ok y) : (ys.map g).mapM f = .ok ys := by
  rw [mapM_eq_ok, List.forall₂_map_left_iff, List.forall₂_same]
  exact h

theorem exists_mem_of_forall₂ {r : α → β → Prop} {xs : List α} {ys : List β}
    (h : List.Forall₂ r xs ys) :
    (∀ x ∈ xs, ∃ y ∈ ys, r x y) ∧ ∀ y ∈ ys, ∃ x ∈ xs, r x y := by
  induction h with
  | nil => simp
  | cons hxy _ ih =>
    obtain ⟨hx, hy⟩ := ih
    constructor
    · refine List.forall_mem_cons.mpr ⟨⟨_, List.mem_cons_self, hxy⟩, fun x hmem => ?_⟩
      obtain ⟨y, hmem', h⟩ := hx x hmem
      exact ⟨y, List.mem_cons_of_mem _ hmem', h⟩
    · refine List.forall_mem_cons.mpr ⟨⟨_, List.mem_cons_self, hxy⟩, fun y hmem => ?_⟩
      obtain ⟨x, hmem', h⟩ := hy y hmem
      exact ⟨x, List.mem_cons_of_mem _ hmem', h⟩

theorem forall₂_trans {R : α → β → Prop} {S : β → γ → Prop} {T : α → γ → Prop}
    (hT : ∀ a b c, R a b → S b c → T a c) {xs : List α} {ys : List β} {zs : List γ}
    (h : List.Forall₂ R xs ys) (h' : List.Forall₂ S ys zs) : List.Forall₂ T xs zs := by
  induction h generalizing zs with
  | nil =>
    obtain rfl := List.forall₂_nil_left_iff.mp h'
    exact .nil
  | cons hxy _ ih =>
    obtain ⟨z, zs, hyz, hrest, rfl⟩ := List.forall₂_cons_left_iff.mp h'
    exact .cons (hT _ _ _ hxy hyz) (ih hrest)

/-- The computation has no failures but those that `P` allows. -/
def FailsOnly (P : ε → Prop) (x : Except ε α) : Prop := ∀ e, x = .error e → P e

namespace FailsOnly
variable {P : ε → Prop} {x : Except ε α}

theorem ok (a : α) : FailsOnly P (.ok a) := nofun

theorem error {e : ε} (h : P e) : FailsOnly P (.error e : Except ε α) := by
  intro e' he
  rwa [← Except.error.inj he]

theorem mono {Q : ε → Prop} (hx : FailsOnly P x) (h : ∀ e, P e → Q e) : FailsOnly Q x :=
  fun e he => h e (hx e he)

theorem elim {e : ε} (h : P e) (o : Option α) (f : α → β) :
    FailsOnly P (o.elim (.error e) fun a => .ok (f a)) := by
  cases o with
  | none => exact .error h
  | some a => exact .ok (f a)

theorem bind {f : α → Except ε β} (hx : FailsOnly P x) (hf : ∀ a, FailsOnly P (f a)) :
    FailsOnly P (x >>= f) := by
  cases x with
  | error e => exact .error (hx e rfl)
  | ok a => exact hf a

theorem map (hx : FailsOnly P x) (f : α → β) : FailsOnly P (x.map f) := by
  cases x with
  | error e => exact .error (hx e rfl)
  | ok a => exact .ok (f a)

theorem mapError {Q : ε' → Prop} {f : ε → ε'} (hx : FailsOnly P x) (hf : ∀ e, P e → Q (f e)) :
    FailsOnly Q (x.mapError f) := by
  cases x with
  | error e => exact .error (hf e (hx e rfl))
  | ok a => exact .ok a

theorem mapM {f : α → Except ε β} (hf : ∀ a, FailsOnly P (f a)) (xs : List α) :
    FailsOnly P (xs.mapM f) := by
  induction xs with
  | nil => exact .ok []
  | cons x xs ih =>
    rw [List.mapM_cons]
    exact (hf x).bind fun y => ih.bind fun ys => .ok (y :: ys)

end FailsOnly

end DocTables.Outcome
