import DocTables.Proofs.KeyMap
import DocTables.Workspace

/-! Actions on stores and tables: what they give, and the state they leave. -/
namespace DocTables
variable {ε σ α β : Type}

namespace Effect

theorem run_pure (a : α) (s : σ) : (pure a : ExceptT ε (StateM σ) α) s = (.ok a, s) := rfl

theorem run_bind (x : ExceptT ε (StateM σ) α) (f : α → ExceptT ε (StateM σ) β) (s : σ) :
    (x >>= f) s =
      match x s with
      | (.ok a, s') => f a s'
      | (.error e, s') => (.error e, s') := by
  simp only [bind, ExceptT.bind, ExceptT.mk, StateT.bind]
  rcases x s with ⟨_ | _, s'⟩ <;> rfl

theorem run_bind_ok {x : ExceptT ε (StateM σ) α} {s s' : σ} {a : α} (h : x s = (.ok a, s'))
    (f : α → ExceptT ε (StateM σ) β) : (x >>= f) s = f a s' := by
  rw [run_bind, h]

theorem run_bind_eq_ok {x : ExceptT ε (StateM σ) α} {f : α → ExceptT ε (StateM σ) β} {s s' : σ}
    {b : β} (h : (x >>= f) s = (.ok b, s')) : ∃ a s₁, x s = (.ok a, s₁) ∧ f a s₁ = (.ok b, s') := by
  rw [run_bind] at h
  rcases hx : x s with ⟨e | a, s₁⟩
  · rw [hx] at h
    exact nomatch (Prod.mk.inj h).1
  · rw [hx] at h
    exact ⟨a, s₁, rfl, h⟩

theorem run_bind_eq_error {x : ExceptT ε (StateM σ) α} {f : α → ExceptT ε (StateM σ) β} {s s' : σ}
    {e : ε} (h : (x >>= f) s = (.error e, s')) :
    x s = (.error e, s') ∨ ∃ a s₁, x s = (.ok a, s₁) ∧ f a s₁ = (.error e, s') := by
  rw [run_bind] at h
  rcases hx : x s with ⟨e' | a, s₁⟩
  · rw [hx] at h
    obtain ⟨he, rfl⟩ := Prod.mk.inj h
    rw [Except.error.inj he]
    exact .inl rfl
  · rw [hx] at h
    exact .inr ⟨a, s₁, rfl, h⟩

theorem run_map (f : α → β) (x : ExceptT ε (StateM σ) α) (s : σ) :
    (f <$> x) s = ((x s).1.map f, (x s).2) := by
  rw [← bind_pure_comp, run_bind]
  rcases x s with ⟨_ | _, _⟩ <;> rfl

theorem state_map (f : α → β) (x : ExceptT ε (StateM σ) α) (s : σ) :
    ((f <$> x) s).2 = (x s).2 := by
  rw [run_map]

theorem run_get (s : σ) : (get : ExceptT ε (StateM σ) σ) s = (.ok s, s) := rfl

theorem run_checked (r : Except TableError α) (s : σ) : (checked r : TableM σ α) s = (r, s) := rfl

theorem run_asking (use : StoreUse) (act : StoreM σ α) (s : σ) :
    asking use act s =
      match act s with
      | (.ok a, s') => (.ok a, s')
      | (.error e, s') => (.error (.storeFailed use e.message), s') := by
  have hrun : asking use act s =
      (Except.mapError (fun e => .storeFailed use e.message) (act s).1, (act s).2) := rfl
  rw [hrun]
  rcases act s with ⟨_ | _, s'⟩ <;> rfl

theorem run_asking_ok {use : StoreUse} {act : StoreM σ α} {s s' : σ} {a : α}
    (h : act s = (.ok a, s')) : asking use act s = (.ok a, s') := by
  rw [run_asking, h]

/-- Checking the items of a list changes nothing. -/
theorem run_mapM_checked (f : α → Except TableError β) (xs : List α) (s : σ) :
    (xs.mapM fun x => (checked (f x) : TableM σ β)) s = (xs.mapM f, s) := by
  induction xs with
  | nil => rfl
  | cons x xs ih =>
    rw [List.mapM_cons, List.mapM_cons, run_bind, run_checked]
    cases f x with
    | error e => rfl
    | ok y =>
      simp only [run_bind, ih]
      cases xs.mapM f <;> rfl

theorem asking_eq_ok {use : StoreUse} {act : StoreM σ α} {s s' : σ} {a : α}
    (h : asking use act s = (.ok a, s')) : act s = (.ok a, s') := by
  rw [run_asking] at h
  rcases hact : act s with ⟨e | b, s₁⟩
  · rw [hact] at h
    exact nomatch (Prod.mk.inj h).1
  · rw [hact] at h
    obtain ⟨hb, rfl⟩ := Prod.mk.inj h
    rw [Except.ok.inj hb]

theorem asking_eq_error {use : StoreUse} {act : StoreM σ α} {s s' : σ} {e : TableError}
    (h : asking use act s = (.error e, s')) :
    ∃ cause, act s = (.error cause, s') ∧ e = .storeFailed use cause.message := by
  rw [run_asking] at h
  rcases hact : act s with ⟨cause | a, s₁⟩
  · rw [hact] at h
    obtain ⟨he, rfl⟩ := Prod.mk.inj h
    exact ⟨cause, rfl, (Except.error.inj he).symm⟩
  · rw [hact] at h
    exact nomatch (Prod.mk.inj h).1

theorem state_asking (use : StoreUse) (act : StoreM σ α) (s : σ) :
    (asking use act s).2 = (act s).2 := by
  rw [run_asking]
  rcases act s with ⟨_ | _, s'⟩ <;> rfl

theorem holds_bind {I : σ → Prop} {x : ExceptT ε (StateM σ) α} {f : α → ExceptT ε (StateM σ) β}
    {s : σ} (hx : I (x s).2) (hf : ∀ a s', x s = (.ok a, s') → I (f a s').2) :
    I ((x >>= f) s).2 := by
  rw [run_bind]
  rcases h : x s with ⟨_ | a, s'⟩
  · rwa [h] at hx
  · exact hf a s' h

/-- An action after which `I` still holds, also when it fails. -/
def Keeps (I : σ → Prop) (x : ExceptT ε (StateM σ) α) : Prop := ∀ s, I s → I (x s).2

namespace Keeps
variable {I : σ → Prop}

theorem pure (a : α) : Keeps I (pure a : ExceptT ε (StateM σ) α) := fun _ hs => hs

theorem get : Keeps I (get : ExceptT ε (StateM σ) σ) := fun _ hs => hs

theorem bind {x : ExceptT ε (StateM σ) α} {f : α → ExceptT ε (StateM σ) β} (hx : Keeps I x)
    (hf : ∀ a, Keeps I (f a)) : Keeps I (x >>= f) := by
  intro s hs
  have hs' := hx s hs
  refine holds_bind hs' fun a s' h => hf a s' ?_
  rwa [h] at hs'

theorem checked (r : Except TableError α) : Keeps I (checked r : TableM σ α) := fun _ hs => hs

theorem bind_checked {r : Except TableError α} {f : α → TableM σ β}
    (hf : ∀ a, r = .ok a → Keeps I (f a)) : Keeps I (DocTables.checked r >>= f) := by
  intro s hs
  refine holds_bind hs fun a s' h => ?_
  obtain ⟨ha, rfl⟩ := Prod.mk.inj h
  exact hf a ha s hs

theorem asking {use : StoreUse} {act : StoreM σ α} (h : Keeps I act) :
    Keeps I (asking use act) := by
  intro s hs
  rw [state_asking]
  exact h s hs

theorem mapM {f : α → ExceptT ε (StateM σ) β} {xs : List α} (h : ∀ x ∈ xs, Keeps I (f x)) :
    Keeps I (xs.mapM f) := by
  induction xs with
  | nil => exact pure []
  | cons x xs ih =>
    obtain ⟨hx, hxs⟩ := List.forall_mem_cons.mp h
    rw [List.mapM_cons]
    exact hx.bind fun y => (ih hxs).bind fun ys => pure (y :: ys)

theorem forM {f : α → ExceptT ε (StateM σ) PUnit} {xs : List α} (h : ∀ x ∈ xs, Keeps I (f x)) :
    Keeps I (xs.forM f) := by
  induction xs with
  | nil => exact pure PUnit.unit
  | cons x xs ih =>
    obtain ⟨hx, hxs⟩ := List.forall_mem_cons.mp h
    have hcons : (x :: xs).forM f = f x >>= fun _ => xs.forM f := rfl
    rw [hcons]
    exact hx.bind fun _ => ih hxs

end Keeps

/-- Where `I` holds, a failure of the action and the state it leaves are as `F` allows. -/
def FailsAs (I : σ → Prop) (F : ε → σ → Prop) (x : ExceptT ε (StateM σ) α) : Prop :=
  ∀ s, I s → ∀ e s', x s = (.error e, s') → F e s'

namespace FailsAs
variable {I J : σ → Prop} {F : ε → σ → Prop}

theorem pure (a : α) : FailsAs I F (pure a : ExceptT ε (StateM σ) α) := nofun

theorem mono {x : ExceptT ε (StateM σ) α} (hx : FailsAs J F x) (hI : ∀ s, I s → J s) :
    FailsAs I F x := fun s hs => hx s (hI s hs)

theorem bind {x : ExceptT ε (StateM σ) α} {f : α → ExceptT ε (StateM σ) β} (hx : FailsAs I F x)
    (hkeeps : Keeps I x) (hf : ∀ a, FailsAs I F (f a)) : FailsAs I F (x >>= f) := by
  intro s hs e s' h
  rcases run_bind_eq_error h with hfirst | ⟨a, s₁, hrun, hrest⟩
  · exact hx s hs e s' hfirst
  · have hs₁ := hkeeps s hs
    rw [hrun] at hs₁
    exact hf a s₁ hs₁ e s' hrest

theorem bind_pure {x : ExceptT ε (StateM σ) α} (hx : FailsAs I F x) (f : α → β) :
    FailsAs I F (x >>= fun a => Pure.pure (f a)) := by
  intro s hs e s' h
  rcases run_bind_eq_error h with hfirst | ⟨a, s₁, -, hrest⟩
  · exact hx s hs e s' hfirst
  · exact nomatch (Prod.mk.inj hrest).1

theorem map {x : ExceptT ε (StateM σ) α} (hx : FailsAs I F x) (f : α → β) :
    FailsAs I F (f <$> x) := by
  rw [← bind_pure_comp]
  exact hx.bind_pure f

theorem bind_checked {F : TableError → σ → Prop} {r : Except TableError α} {f : α → TableM σ β}
    (hr : ∀ e, r = .error e → ∀ s, I s → F e s) (hf : ∀ a, FailsAs I F (f a)) :
    FailsAs I F (checked r >>= f) := by
  refine bind (fun s hs e s' h => ?_) (.checked r) hf
  obtain ⟨he, rfl⟩ := Prod.mk.inj h
  exact hr e he s hs

theorem mapM {f : α → ExceptT ε (StateM σ) β} (hf : ∀ a, FailsAs I F (f a))
    (hkeeps : ∀ a, Keeps I (f a)) (xs : List α) : FailsAs I F (xs.mapM f) := by
  induction xs with
  | nil => exact pure []
  | cons x xs ih =>
    rw [List.mapM_cons]
    exact (hf x).bind (hkeeps x) fun y => ih.bind_pure fun ys => y :: ys

theorem forM {f : α → ExceptT ε (StateM σ) PUnit} (hf : ∀ a, FailsAs I F (f a))
    (hkeeps : ∀ a, Keeps I (f a)) (xs : List α) : FailsAs I F (xs.forM f) := by
  induction xs with
  | nil => exact pure PUnit.unit
  | cons x xs ih =>
    have hcons : (x :: xs).forM f = f x >>= fun _ => xs.forM f := rfl
    rw [hcons]
    exact (hf x).bind (hkeeps x) fun _ => ih

end FailsAs

/-- Actions for the items of a list that all succeed, each from the state that the one before it
has left. -/
inductive Runs (f : α → ExceptT ε (StateM σ) β) : σ → List α → List β → σ → Prop
  | nil {s : σ} : Runs f s [] [] s
  | cons {s s₁ s' : σ} {x : α} {xs : List α} {y : β} {ys : List β} (hfirst : f x s = (.ok y, s₁))
      (hrest : Runs f s₁ xs ys s') : Runs f s (x :: xs) (y :: ys) s'

theorem run_mapM_eq_ok {f : α → ExceptT ε (StateM σ) β} {xs : List α} {ys : List β} {s s' : σ} :
    xs.mapM f s = (.ok ys, s') ↔ Runs f s xs ys s' := by
  constructor
  · intro h
    induction xs generalizing s ys with
    | nil =>
      obtain ⟨hys, rfl⟩ := Prod.mk.inj h
      obtain rfl := Except.ok.inj hys
      exact .nil
    | cons x xs ih =>
      rw [List.mapM_cons] at h
      obtain ⟨y, s₁, hfirst, h⟩ := run_bind_eq_ok h
      obtain ⟨rest, s₂, hrest, h⟩ := run_bind_eq_ok h
      obtain ⟨hys, rfl⟩ := Prod.mk.inj h
      obtain rfl := Except.ok.inj hys
      exact .cons hfirst (ih hrest)
  · intro h
    induction h with
    | nil => rfl
    | cons hfirst _ ih =>
      rw [List.mapM_cons, run_bind_ok hfirst, run_bind_ok ih]
      rfl

/-- Actions for a list fail with the first of them that fails, where the ones before it lead. -/
theorem run_mapM_eq_error {f : α → ExceptT ε (StateM σ) β} {xs : List α} {e : ε} {s s' : σ} :
    xs.mapM f s = (.error e, s') ↔ ∃ before x after ys s₁, xs = before ++ x :: after ∧
      Runs f s before ys s₁ ∧ f x s₁ = (.error e, s') := by
  constructor
  · intro h
    induction xs generalizing s with
    | nil => exact nomatch (Prod.mk.inj h).1
    | cons x xs ih =>
      rw [List.mapM_cons] at h
      rcases run_bind_eq_error h with hfirst | ⟨y, s₁, hfirst, h⟩
      · exact ⟨[], x, xs, [], s, rfl, .nil, hfirst⟩
      rcases run_bind_eq_error h with hrest | ⟨ys, s₂, -, hpure⟩
      · obtain ⟨before, x', after, ys, s₂, rfl, hbefore, hfails⟩ := ih hrest
        exact ⟨x :: before, x', after, y :: ys, s₂, rfl, .cons hfirst hbefore, hfails⟩
      · exact nomatch (Prod.mk.inj hpure).1
  · rintro ⟨before, x, after, ys, s₁, rfl, hbefore, hfails⟩
    induction hbefore with
    | nil => rw [List.nil_append, List.mapM_cons, run_bind, hfails]
    | cons hfirst _ ih =>
      rw [List.cons_append, List.mapM_cons, run_bind_ok hfirst, run_bind, ih hfails]

/-- An action that gives `r` and keeps `I` wherever `I` holds. -/
def Yields (I : σ → Prop) (x : ExceptT ε (StateM σ) α) (r : Except ε α) : Prop :=
  ∀ s, I s → (x s).1 = r ∧ I (x s).2

end Effect

namespace Workspace

/-- A call to a store changes the store of that name alone. -/
theorem onStore_apply (name : String) (act : StoreM Memory α) (w : Workspace) :
    onStore name act w = ((act (w.memory name)).1, w.setMemory name (act (w.memory name)).2) := rfl

theorem run_onStore {name : String} {act : StoreM Memory α} {w : Workspace}
    {r : Except StoreError α} {m : Memory} (h : act (w.memory name) = (r, m)) :
    onStore name act w = (r, w.setMemory name m) := by
  rw [onStore_apply, h]

theorem run_asking_onStore (use : StoreUse) (name : String) (act : StoreM Memory α)
    (w : Workspace) : asking use (onStore name act) w =
      ((act (w.memory name)).1.mapError fun e => .storeFailed use e.message,
        w.setMemory name (act (w.memory name)).2) := rfl

/-- The answer of a store is checked, and the store is left as the call has left it. -/
theorem run_asking_checked (use : StoreUse) (name : String) (act : StoreM Memory α)
    (f : α → Except TableError β) (w : Workspace) :
    (asking use (onStore name act) >>= fun a => checked (f a)) w =
      (((act (w.memory name)).1.mapError fun e => .storeFailed use e.message) >>= f,
        w.setMemory name (act (w.memory name)).2) := by
  rw [Effect.run_bind, run_asking_onStore]
  rcases act (w.memory name) with ⟨_ | _, _⟩ <;> rfl

theorem onStore_eq {name : String} {act : StoreM Memory α} {w w' : Workspace}
    {r : Except StoreError α} (h : onStore name act w = (r, w')) :
    ∃ m, act (w.memory name) = (r, m) ∧ w' = w.setMemory name m := by
  rcases hact : act (w.memory name) with ⟨r', m⟩
  rw [run_onStore hact] at h
  obtain ⟨rfl, rfl⟩ := Prod.mk.inj h
  exact ⟨m, rfl, rfl⟩

@[simp] theorem memory_setMemory (w : Workspace) (name : String) (m : Memory) :
    (w.setMemory name m).memory name = m := by
  simp [memory, setMemory]

theorem memory_setMemory_of_ne {name other : String} (h : other ≠ name) (w : Workspace)
    (m : Memory) : (w.setMemory name m).memory other = w.memory other := by
  rw [memory, setMemory, KeyMap.get?_insert_of_ne h]
  rfl

theorem setMemory_setMemory (w : Workspace) (name : String) (m m' : Memory) :
    (w.setMemory name m).setMemory name m' = w.setMemory name m' := by
  simp [setMemory, KeyMap.insert_insert]

/-- Calls to one store, one after the other. -/
theorem onStore_bind (name : String) (x : StoreM Memory α) (f : α → StoreM Memory β) :
    onStore name (x >>= f) = onStore name x >>= fun a => onStore name (f a) := by
  funext w
  rw [Effect.run_bind]
  unfold onStore
  rw [Effect.run_bind]
  rcases x (w.memory name) with ⟨e | a, m⟩
  · rfl
  · simp only [memory_setMemory, setMemory_setMemory]

end Workspace
end DocTables
