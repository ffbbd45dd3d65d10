import Mathlib.Data.List.Basic
import DocTables.Proofs.Pool

/-!
Pools move by move: what a worker does in one turn, and a run as turns of its workers in the order
of a schedule.
-/
namespace DocTables.Pool
variable {σ ε α β : Type}

section Moves
variable (start : α → ExceptT ε (StateM σ) Unit) (finish : α → ExceptT ε (StateM σ) β)

/-- A turn of a worker that is not out: what becomes of it, of the queue and of the state, and the
results that it adds. -/
inductive Turn : Worker ε α → List α → σ → Worker ε α → List α → List (α × β) → σ → Prop
  | leaves {s : σ} : Turn .idle [] s .gone [] [] s
  | takes {j : α} {queue : List α} {s : σ} : Turn .idle (j :: queue) s (.holding j) queue [] s
  | starts {j : α} {queue : List α} {s s' : σ} (h : start j s = (.ok (), s')) :
      Turn (.holding j) queue s (.running j) queue [] s'
  | refused {j : α} {e : ε} {queue : List α} {s s' : σ} (h : start j s = (.error e, s')) :
      Turn (.holding j) queue s (.failed e) queue [] s'
  | finishes {j : α} {r : β} {queue : List α} {s s' : σ} (h : finish j s = (.ok r, s')) :
      Turn (.running j) queue s .idle queue [(j, r)] s'
  | fails {j : α} {e : ε} {queue : List α} {s s' : σ} (h : finish j s = (.error e, s')) :
      Turn (.running j) queue s (.failed e) queue [] s'

/-- A turn of the worker of a number, if there is one that is not out. -/
inductive Move : Nat → Pool ε α β × σ → Pool ε α β × σ → Prop
  | rests {i : Nat} {p : Pool ε α β} {s : σ} (h : ∀ w ∈ p.workers[i]?, w.isOut = true) :
      Move i (p, s) (p, s)
  | turns {before after : List (Worker ε α)} {w w' : Worker ε α} {queue queue' : List α}
      {results new : List (α × β)} {s s' : σ} (h : Turn start finish w queue s w' queue' new s') :
      Move before.length (⟨queue, before ++ w :: after, results⟩, s)
        (⟨queue', before ++ w' :: after, results ++ new⟩, s')

/-- Moves of the workers of a list of numbers, one after the other. -/
inductive Moves : List Nat → Pool ε α β × σ → Pool ε α β × σ → Prop
  | nil {x : Pool ε α β × σ} : Moves [] x x
  | cons {i : Nat} {schedule : List Nat} {x y z : Pool ε α β × σ} (h : Move start finish i x y)
      (hs : Moves schedule y z) : Moves (i :: schedule) x z

end Moves

variable {start : α → ExceptT ε (StateM σ) Unit} {finish : α → ExceptT ε (StateM σ) β}

theorem exists_of_getElem? {γ : Type} {xs : List γ} {i : Nat} {x : γ} (h : xs[i]? = some x) :
    ∃ before after, xs = before ++ x :: after ∧ before.length = i := by
  obtain ⟨hi, rfl⟩ := List.getElem?_eq_some_iff.mp h
  refine ⟨xs.take i, xs.drop (i + 1), ?_, List.length_take_of_le hi.le⟩
  rw [List.getElem_cons_drop, List.take_append_drop]

/-- A step of a pool is a move. -/
theorem move_step (start : α → ExceptT ε (StateM σ) Unit) (finish : α → ExceptT ε (StateM σ) β)
    (i : Nat) (p : Pool ε α β) (s : σ) :
    Move start finish i (p, s) ((p.step start finish i : StateM σ _) s) := by
  unfold step
  cases hw : p.workers[i]? with
  | none => exact .rests (by simp [hw])
  | some w =>
    obtain ⟨before, after, hworkers, rfl⟩ := exists_of_getElem? hw
    obtain ⟨queue, workers, results⟩ := p
    obtain rfl : workers = before ++ w :: after := hworkers
    have hturn : ∀ {w' queue' results' new s'}, Turn start finish w queue s w' queue' new s' →
        results' = results ++ new →
        Move start finish before.length (⟨queue, before ++ w :: after, results⟩, s)
          (⟨queue', (before ++ w :: after).set before.length w', results'⟩, s') := by
      rintro w' queue' _ new s' h rfl
      have hmove : Move start finish before.length (⟨queue, before ++ w :: after, results⟩, s)
          (⟨queue', before ++ w' :: after, results ++ new⟩, s') := .turns h
      rwa [show before ++ w' :: after = (before ++ w :: after).set before.length w' by simp]
        at hmove
    cases w with
    | idle =>
      cases queue with
      | nil => exact hturn .leaves (List.append_nil _).symm
      | cons j queue => exact hturn .takes (List.append_nil _).symm
    | holding j =>
      simp only [bind, StateT.bind, ExceptT.run]
      rcases h : start j s with ⟨e | _, s'⟩
      · exact hturn (.refused h) (List.append_nil _).symm
      · exact hturn (.starts h) (List.append_nil _).symm
    | running j =>
      simp only [bind, StateT.bind, ExceptT.run]
      rcases h : finish j s with ⟨e | r, s'⟩
      · exact hturn (.fails h) (List.append_nil _).symm
      · exact hturn (.finishes h) rfl
    | gone => exact .rests (by simp [Worker.isOut, Worker.isGone])
    | failed e => exact .rests (by simp [Worker.isOut, Worker.failure?])

/-- A run goes on until a failure is noticed, all workers are out, or the schedule is at its end. -/
theorem run_moves (start : α → ExceptT ε (StateM σ) Unit) (finish : α → ExceptT ε (StateM σ) β)
    (notice : Notice) (schedule : List Nat) (p : Pool ε α β) (s : σ) :
    ∃ made p' s', Moves start finish made (p, s) (p', s') ∧
      ((∃ e, p'.failure? notice = some e ∧
          run notice start finish schedule p s = (.error e, s')) ∨
        p'.failure? notice = none ∧ run notice start finish schedule p s = (.ok p', s') ∧
          (made = schedule ∨ p'.workers.all Worker.isOut = true)) := by
  induction schedule generalizing p s with
  | nil =>
    refine ⟨[], p, s, .nil, ?_⟩
    cases hfailure : p.failure? notice with
    | some e => exact .inl ⟨e, rfl, by unfold run; rw [hfailure]; rfl⟩
    | none => exact .inr ⟨rfl, by unfold run; rw [hfailure]; rfl, .inl rfl⟩
  | cons i schedule ih =>
    cases hfailure : p.failure? notice with
    | some e => exact ⟨[], p, s, .nil, .inl ⟨e, hfailure, by unfold run; rw [hfailure]; rfl⟩⟩
    | none =>
      by_cases hout : p.workers.all Worker.isOut = true
      · refine ⟨[], p, s, .nil, .inr ⟨hfailure, ?_, .inr hout⟩⟩
        unfold run
        simp only [hfailure, hout, if_true]
        rfl
      · have hmove := move_step start finish i p s
        rcases hstep : (p.step start finish i : StateM σ _) s with ⟨p₁, s₁⟩
        rw [hstep] at hmove
        have hlift : (ExceptT.lift (p.step start finish i) : ExceptT ε (StateM σ) _) s =
            (.ok p₁, s₁) := by
          simp only [ExceptT.lift, ExceptT.mk, Functor.map, StateT.map, hstep]
          rfl
        have hrun : run notice start finish (i :: schedule) p s =
            run notice start finish schedule p₁ s₁ := by
          conv_lhs => unfold run
          simp only [hfailure, if_neg hout]
          exact Effect.run_bind_ok hlift _
        obtain ⟨made, p', s', hmoves, hend⟩ := ih p₁ s₁
        refine ⟨i :: made, p', s', .cons hmove hmoves, ?_⟩
        rw [hrun]
        exact hend.imp id fun h => ⟨h.1, h.2.1, h.2.2.imp (congrArg (i :: ·)) id⟩

/-- What every move keeps is kept by any number of them. -/
theorem Moves.keeps {I : Pool ε α β × σ → Prop} {schedule : List Nat} {x y : Pool ε α β × σ}
    (h : Moves start finish schedule x y)
    (hmove : ∀ i x y, Move start finish i x y → I x → I y) (hx : I x) : I y := by
  induction h with
  | nil => exact hx
  | cons h _ ih => exact ih (hmove _ _ _ h hx)

end DocTables.Pool
