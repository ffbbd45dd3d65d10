import DocTables.Pool
import DocTables.Proofs.Effect

/-! What holds while the jobs of a pool are carried out, in whatever order the workers move. -/
namespace DocTables.Pool
open Effect
variable {σ ε α β : Type} {I : σ → Prop} {start : α → ExceptT ε (StateM σ) Unit}
  {finish : α → ExceptT ε (StateM σ) β}

/-- One move starts a job, finishes one, or leaves the state alone. -/
theorem keeps_step (hstart : ∀ j, Keeps I (start j)) (hfinish : ∀ j, Keeps I (finish j)) (i : Nat)
    (p : Pool ε α β) (s : σ) (hs : I s) : I ((p.step start finish i : StateM σ _) s).2 := by
  unfold step
  cases p.workers[i]? with
  | none => exact hs
  | some worker =>
    cases worker with
    | idle => cases p.queue <;> exact hs
    | holding j =>
      have hj := hstart j s hs
      simp only [bind, StateT.bind, ExceptT.run]
      rcases h : start j s with ⟨_ | _, s'⟩ <;> rwa [h] at hj
    | running j =>
      have hj := hfinish j s hs
      simp only [bind, StateT.bind, ExceptT.run]
      rcases h : finish j s with ⟨_ | _, s'⟩ <;> rwa [h] at hj
    | gone => exact hs
    | failed e => exact hs

theorem keeps_run (hstart : ∀ j, Keeps I (start j)) (hfinish : ∀ j, Keeps I (finish j))
    (notice : Notice) (is : List Nat) (p : Pool ε α β) :
    Keeps I (run notice start finish is p) := by
  induction is generalizing p with
  | nil =>
    unfold run
    cases p.failure? notice <;> exact fun _ hs => hs
  | cons i is ih =>
    unfold run
    cases p.failure? notice with
    | some e => exact fun _ hs => hs
    | none =>
      simp only
      split
      next => exact fun _ hs => hs
      next =>
        refine Keeps.bind (fun s hs => ?_) fun p => ih p
        exact keeps_step hstart hfinish i p s hs

theorem keeps_complete (hstart : ∀ j, Keeps I (start j)) (hfinish : ∀ j, Keeps I (finish j))
    (notice : Notice) (n : Nat) (jobs : List α) :
    Keeps I (complete notice start finish n jobs) :=
  (keeps_run hstart hfinish notice _ _).bind fun p => .pure p.results

end DocTables.Pool
