import Mathlib.Algebra.BigOperators.Group.List.Basic
import Mathlib.Algebra.Order.Group.Multiset
import Mathlib.Data.List.TakeWhile
import Mathlib.Tactic.Abel
import DocTables.Proofs.Pool.Moves

/-!
Where the jobs of a pool are while its workers move in any order. Each job waits, runs, is done or
is lost with the worker that failed on it, and none is begun twice. Workers with enough turns come
to their end, and when no failure is noticed then, every job is done.
-/
namespace DocTables

namespace Worker
variable {ε α : Type}

/-- The job that is taken but not begun. -/
def held : Worker ε α → Multiset α
  | holding j => {j}
  | _ => 0

/-- The job that is begun but not done. -/
def begun : Worker ε α → Multiset α
  | running j => {j}
  | _ => 0

/-- The job that was lost, counted. -/
def losses (w : Worker ε α) : Nat := if w.failure?.isSome then 1 else 0

/-- How many turns the job of the worker still takes. -/
def work : Worker ε α → Nat
  | holding _ => 2
  | running _ => 1
  | _ => 0

end Worker

namespace Pool
variable {σ ε α β : Type} {start : α → ExceptT ε (StateM σ) Unit}
  {finish : α → ExceptT ε (StateM σ) β} {x y : Pool ε α β × σ} {i n : Nat} {schedule : List Nat}
  {jobs : List α} {s : σ}

theorem sum_workers {M : Type} [AddCommMonoid M] (f : Worker ε α → M) (w : Worker ε α)
    (before after : List (Worker ε α)) :
    ((before ++ w :: after).map f).sum = f w + ((before ++ after).map f).sum := by
  simp only [List.map_append, List.map_cons, List.sum_append, List.sum_cons]
  abel

/-- After a turn, a worker is the one that moved or was there before. -/
theorem eq_or_mem {w w' u : Worker ε α} {before after : List (Worker ε α)}
    (h : u ∈ before ++ w' :: after) : u = w' ∨ u ∈ before ++ w :: after := by
  simp only [List.mem_append, List.mem_cons] at h ⊢
  tauto

section Load

theorem Moves.length_workers (h : Moves start finish schedule x y) :
    y.1.workers.length = x.1.workers.length := by
  refine h.keeps (I := fun z => z.1.workers.length = x.1.workers.length) ?_ rfl
  rintro _ _ _ (_ | _) hx
  · exact hx
  · simpa using hx

/-- No more jobs run than there are workers. -/
theorem Moves.load_le (h : Moves start finish schedule (ofJobs n jobs, s) y) : y.1.load ≤ n := by
  refine List.countP_le_length.trans_eq ?_
  rw [h.length_workers, ofJobs, List.length_replicate]

end Load

section Tally

def held (p : Pool ε α β) : Multiset α := (p.workers.map Worker.held).sum

def running (p : Pool ε α β) : Multiset α := (p.workers.map Worker.begun).sum

def done (p : Pool ε α β) : Multiset α := p.results.map Prod.fst

def losses (p : Pool ε α β) : Nat := (p.workers.map Worker.losses).sum

/-- Every job waits or has begun. One that has begun runs, is done, or is lost with a worker. -/
structure Tally (jobs begun : List α) (p : Pool ε α β) : Prop where
  waiting : p.queue + p.held + begun = (jobs : Multiset α)
  begun : ∃ lost : Multiset α, p.running + p.done + lost = (begun : Multiset α) ∧
    lost.card = p.losses

theorem tally_ofJobs (n : Nat) (jobs : List α) : Tally jobs [] (ofJobs n jobs : Pool ε α β) := by
  refine ⟨?_, 0, ?_, ?_⟩
  · simp [ofJobs, held, Worker.held, List.sum_replicate]
  · simp [ofJobs, running, done, Worker.begun, List.sum_replicate]
  · simp [ofJobs, losses, Worker.losses, Worker.failure?]

/-- No job is begun twice. -/
theorem Tally.subperm {begun : List α} {p : Pool ε α β} (h : Tally jobs begun p) :
    begun.Subperm jobs := by
  rw [← Multiset.coe_le, ← h.waiting]
  exact Multiset.le_add_left _ _

/-- What a turn takes from one place it puts in another: into what has begun, `b`, and out of it,
`l`, when it is lost. The state shows what has begun. -/
theorem Turn.balance {View : List α → σ → Prop}
    (hstart : ∀ begun s j, View begun s → View (begun ++ [j]) (start j s).2)
    (hfinish : ∀ begun s j, View begun s → View begun (finish j s).2)
    {w w' : Worker ε α} {queue queue' : List α} {new : List (α × β)} {s s' : σ}
    (h : Turn start finish w queue s w' queue' new s') :
    ∃ (b : List α) (l : Multiset α), (queue' + w'.held + b : Multiset α) = queue + w.held ∧
      w'.begun + (new.map Prod.fst : List α) + l = w.begun + b ∧ w.losses + l.card = w'.losses ∧
        ∀ begun, View begun s → View (begun ++ b) s' := by
  have hstay : ∀ {s' : σ}, (∀ begun, View begun s → View begun s') →
      ∀ begun, View begun s → View (begun ++ []) s' := by
    intro s' hview begun h
    rw [List.append_nil]
    exact hview begun h
  cases h with
  | leaves => exact ⟨[], 0, rfl, rfl, rfl, hstay fun _ h => h⟩
  | @takes j =>
    refine ⟨[], 0, ?_, rfl, rfl, hstay fun _ h => h⟩
    rw [← Multiset.cons_coe, ← Multiset.singleton_add]
    simp only [Worker.held, Multiset.coe_nil]
    abel
  | @starts j _ _ _ h =>
    refine ⟨[j], 0, ?_, ?_, rfl, fun begun hbegun => ?_⟩
    · simp [Worker.held]
    · simp [Worker.begun]
    · have hnext := hstart begun s j hbegun
      rwa [h] at hnext
  | @refused j e _ _ _ h =>
    refine ⟨[j], {j}, ?_, ?_, rfl, fun begun hbegun => ?_⟩
    · simp [Worker.held]
    · simp [Worker.begun]
    · have hnext := hstart begun s j hbegun
      rwa [h] at hnext
  | @finishes j r _ _ _ h =>
    refine ⟨[], 0, ?_, ?_, rfl, hstay fun begun hbegun => ?_⟩
    · simp [Worker.held]
    · simp [Worker.begun]
    · have hnext := hfinish begun s j hbegun
      rwa [h] at hnext
  | @fails j e _ _ _ h =>
    refine ⟨[], {j}, ?_, ?_, rfl, hstay fun begun hbegun => ?_⟩
    · simp [Worker.held]
    · simp [Worker.begun]
    · have hnext := hfinish begun s j hbegun
      rwa [h] at hnext

theorem Move.tally {View : List α → σ → Prop}
    (hstart : ∀ begun s j, View begun s → View (begun ++ [j]) (start j s).2)
    (hfinish : ∀ begun s j, View begun s → View begun (finish j s).2)
    (h : Move start finish i x y) (hx : ∃ begun, Tally jobs begun x.1 ∧ View begun x.2) :
    ∃ begun, Tally jobs begun y.1 ∧ View begun y.2 := by
  obtain ⟨begun, ⟨hwaiting, lost, hbegun, hlost⟩, hview⟩ := hx
  cases h with
  | rests => exact ⟨begun, ⟨hwaiting, lost, hbegun, hlost⟩, hview⟩
  | @turns before after w w' queue queue' results new s s' h =>
    obtain ⟨b, l, hheld, hmoved, hloss, hnext⟩ := h.balance hstart hfinish
    simp only [held, running, done, losses, sum_workers] at hwaiting hbegun hlost
    refine ⟨begun ++ b, ⟨?_, lost + l, ?_, ?_⟩, hnext begun hview⟩ <;>
      simp only [held, running, done, losses, sum_workers, ← Multiset.coe_add]
    · generalize ((before ++ after).map Worker.held).sum = others at hwaiting ⊢
      calc (queue' + (w'.held + others) + (begun + b) : Multiset α)
        _ = queue' + w'.held + b + others + begun := by abel
        _ = queue + w.held + others + begun := by rw [hheld]
        _ = queue + (w.held + others) + begun := by abel
        _ = jobs := hwaiting
    · generalize ((before ++ after).map Worker.begun).sum = others at hbegun ⊢
      rw [List.map_append, ← Multiset.coe_add]
      calc w'.begun + others + ((results.map Prod.fst : List α) + (new.map Prod.fst : List α)) +
            (lost + l)
        _ = w'.begun + (new.map Prod.fst : List α) + l +
              (others + (results.map Prod.fst : List α) + lost) := by abel
        _ = w.begun + b + (others + (results.map Prod.fst : List α) + lost) := by rw [hmoved]
        _ = w.begun + others + (results.map Prod.fst : List α) + lost + b := by abel
        _ = begun + b := by rw [hbegun]
    · rw [Multiset.card_add, hlost, ← hloss]
      omega

end Tally

section Ending

theorem Turn.gone {w w' : Worker ε α} {queue queue' : List α} {new : List (α × β)} {s s' : σ}
    (h : Turn start finish w queue s w' queue' new s') :
    (queue = [] → queue' = []) ∧ (w'.isGone = true → queue' = []) := by
  cases h <;> simp [Worker.isGone]

/-- Who has left has found the queue empty. -/
theorem Moves.gone (h : Moves start finish schedule (ofJobs n jobs, s) y) :
    ∀ w ∈ y.1.workers, w.isGone = true → y.1.queue = [] := by
  refine h.keeps (I := fun z => ∀ w ∈ z.1.workers, w.isGone = true → z.1.queue = []) ?_ ?_
  · rintro _ _ _ (_ | hturn) hx u hu hgone
    · exact hx u hu hgone
    · rcases eq_or_mem hu with rfl | hmem
      · exact hturn.gone.2 hgone
      · exact hturn.gone.1 (hx u hmem hgone)
  · intro w hw hgone
    obtain rfl := List.eq_of_mem_replicate hw
    exact nomatch hgone

/-- When all workers are out and no failure is noticed, none of them has failed. -/
theorem all_gone {p : Pool ε α β} {notice : Notice} (hfailure : p.failure? notice = none)
    (hout : p.workers.all Worker.isOut = true) : ∀ w ∈ p.workers, w.isGone = true := by
  have hfailed : ∀ w ∈ p.workers, w.isGone = false → w.failure?.isSome = true := by
    intro w hw hgone
    simpa [Worker.isOut, hgone] using List.all_eq_true.mp hout w hw
  cases notice with
  | atOnce =>
    intro w hw
    have hnone := List.findSome?_eq_none_iff.mp hfailure w hw
    by_contra hgone
    have hsome := hfailed w hw (by simpa using hgone)
    simp [hnone] at hsome
  | inOrder =>
    simp only [failure?] at hfailure
    cases hrest : p.workers.dropWhile Worker.isGone with
    | nil => exact List.dropWhile_eq_nil_iff.mp hrest
    | cons w rest =>
      -- The first worker that is not gone has failed, and its failure is noticed.
      have hmem : w ∈ p.workers := (List.dropWhile_sublist _).subset (hrest ▸ List.mem_cons_self)
      have hgone : w.isGone = false := by
        have hhead := List.head?_dropWhile_not Worker.isGone p.workers
        rwa [hrest] at hhead
      have hsome := hfailed w hmem hgone
      rw [hrest] at hfailure
      simp only [List.head?_cons, Option.bind_some] at hfailure
      simp [hfailure] at hsome

/-- A failure that is noticed is that of a worker. -/
theorem failed_mem {p : Pool ε α β} {notice : Notice} {e : ε}
    (h : p.failure? notice = some e) : .failed e ∈ p.workers := by
  have hof : ∀ w : Worker ε α, w.failure? = some e → w = .failed e := by
    intro w hw
    cases w <;> simp_all [Worker.failure?]
  cases notice with
  | atOnce =>
    obtain ⟨w, hw, hfailure⟩ := List.exists_of_findSome?_eq_some h
    exact hof w hfailure ▸ hw
  | inOrder =>
    obtain ⟨w, hw, hfailure⟩ := Option.bind_eq_some_iff.mp h
    exact hof w hfailure ▸ (List.dropWhile_sublist _).subset (List.mem_of_head? hw)

/-- When a pool has come to its end without a failure, every job has begun and is done. -/
theorem Moves.complete {p : Pool ε α β} {s' : σ} {notice : Notice} {begun : List α}
    (h : Moves start finish schedule (ofJobs n jobs, s) (p, s')) (hn : 0 < n)
    (htally : Tally jobs begun p) (hfailure : p.failure? notice = none)
    (hout : p.workers.all Worker.isOut = true) :
    begun.Perm jobs ∧ (p.results.map Prod.fst).Perm jobs := by
  have hgone := all_gone hfailure hout
  have hnone : ∀ {M : Type} [AddCommMonoid M] (f : Worker ε α → M), f .gone = 0 →
      (p.workers.map f).sum = 0 := by
    intro M _ f hf
    refine List.sum_eq_zero fun m hm => ?_
    obtain ⟨w, hw, rfl⟩ := List.mem_map.mp hm
    have hwgone := hgone w hw
    cases w <;> simp_all [Worker.isGone]
  have hqueue : p.queue = [] := by
    have hlength : p.workers.length = n := by simpa [ofJobs] using h.length_workers
    obtain ⟨w, hw⟩ := List.exists_mem_of_length_pos (hlength ▸ hn)
    exact h.gone w hw (hgone w hw)
  obtain ⟨hwaiting, lost, hbegun, hlost⟩ := htally
  have hlost' : lost = 0 := Multiset.card_eq_zero.mp (hlost.trans (hnone Worker.losses rfl))
  rw [hqueue, held, hnone Worker.held rfl, add_zero, Multiset.coe_nil, zero_add] at hwaiting
  rw [running, hnone Worker.begun rfl, hlost', zero_add, add_zero] at hbegun
  exact ⟨Multiset.coe_eq_coe.mp hwaiting, Multiset.coe_eq_coe.mp (hbegun.trans hwaiting)⟩

end Ending

section Work

def work (p : Pool ε α β) : Nat := 3 * p.queue.length + (p.workers.map Worker.work).sum

theorem work_ofJobs (n : Nat) (jobs : List α) :
    (ofJobs n jobs : Pool ε α β).work = 3 * jobs.length := by
  simp [work, ofJobs, Worker.work]

/-- The worker of this number is there and not out. -/
def Stays (i : Nat) (p : Pool ε α β) : Prop := ∃ w, p.workers[i]? = some w ∧ w.isOut = false

/-- A turn lowers the work to do, unless the worker is out then. -/
theorem Turn.work_le {w w' : Worker ε α} {queue queue' : List α} {new : List (α × β)} {s s' : σ}
    (h : Turn start finish w queue s w' queue' new s') :
    w.isOut = false ∧ 3 * queue'.length + w'.work ≤ 3 * queue.length + w.work ∧
      (w'.isOut = false → 3 * queue'.length + w'.work + 1 = 3 * queue.length + w.work) := by
  cases h <;> simp [Worker.work, Worker.isOut, Worker.isGone, Worker.failure?]; omega

theorem Move.work_le {k : Nat} (h : Move start finish k x y) (hy : Stays i y.1) :
    Stays i x.1 ∧ (if k = i then 1 else 0) + y.1.work ≤ x.1.work := by
  cases h with
  | rests hrests =>
    refine ⟨hy, ?_⟩
    split
    next hk =>
      obtain ⟨w, hw, hin⟩ := hy
      have hout := hrests w (by rw [hk, hw]; rfl)
      rw [hin] at hout
      exact nomatch hout
    next => omega
  | @turns before after w w' queue queue' results new s s' h =>
    obtain ⟨hin, hle, hlt⟩ := h.work_le
    obtain ⟨u, hu, huin⟩ := hy
    have hwork : ∀ (v : Worker ε α) q r, (⟨q, before ++ v :: after, r⟩ : Pool ε α β).work =
        3 * q.length + v.work + ((before ++ after).map Worker.work).sum := by
      intro v q r
      simp only [work, sum_workers]
      omega
    simp only [hwork]
    split
    next hk =>
      subst hk
      simp only [List.getElem?_append_right le_rfl, Nat.sub_self, List.getElem?_cons_zero,
        Option.some.injEq] at hu
      obtain rfl := hu
      refine ⟨⟨w, by simp, hin⟩, ?_⟩
      have heq := hlt huin
      omega
    next hk =>
      refine ⟨⟨u, ?_, huin⟩, by omega⟩
      rw [← hu, show before ++ w' :: after = (before ++ w :: after).set before.length w' by simp,
        List.getElem?_set_ne hk]

/-- A worker that is not out has had no more turns than there was work to do. -/
theorem Moves.count_le (h : Moves start finish schedule x y) (hy : Stays i y.1) :
    Stays i x.1 ∧ schedule.count i + y.1.work ≤ x.1.work := by
  induction h with
  | nil => exact ⟨hy, by simp⟩
  | @cons k schedule x y z hmove _ ih =>
    obtain ⟨hy', hle⟩ := ih hy
    obtain ⟨hx, hstep⟩ := hmove.work_le hy'
    refine ⟨hx, ?_⟩
    simp only [List.count_cons, beq_iff_eq]
    omega

/-- Workers that have had more than three turns for every job are out. -/
theorem Moves.all_out (h : Moves start finish schedule (ofJobs n jobs, s) y)
    (hturns : ∀ i < n, 3 * jobs.length < schedule.count i) :
    y.1.workers.all Worker.isOut = true := by
  rw [List.all_eq_true]
  intro w hw
  by_contra hin
  obtain ⟨i, hi, rfl⟩ := List.mem_iff_getElem.mp hw
  have hlength : y.1.workers.length = n := by simpa [ofJobs] using h.length_workers
  obtain ⟨-, hle⟩ := h.count_le ⟨y.1.workers[i], List.getElem?_eq_getElem hi, by simpa using hin⟩
  have hlt := hturns i (hlength ▸ hi)
  rw [work_ofJobs] at hle
  omega

theorem count_flatMap_replicate {i n : Nat} (hi : i < n) (k : Nat) :
    ((List.range n).flatMap (List.replicate k)).count i = k := by
  have hcount : ∀ n, ((List.range n).flatMap (List.replicate k)).count i =
      if i < n then k else 0 := by
    intro n
    induction n with
    | zero => rfl
    | succ n ih =>
      rw [List.range_succ, List.flatMap_append, List.count_append, ih]
      simp only [List.flatMap_singleton, List.count_replicate, beq_iff_eq]
      split_ifs <;> omega
  rw [hcount, if_pos hi]

theorem count_inTurn {i n : Nat} (hi : i < n) (rounds : Nat) :
    (inTurn n rounds).count i = 2 + 3 * rounds := by
  unfold inTurn
  rw [List.count_append, count_flatMap_replicate hi, List.count_flatten]
  simp [count_flatMap_replicate hi, Nat.mul_comm]

end Work

section Fates
variable {I : σ → Prop} {opens : α → Except ε Unit} {closes : α → Except ε β}

/-- What becomes of a job whose start and end always give the same. -/
def fate (opens : α → Except ε Unit) (closes : α → Except ε β) (j : α) : Except ε β := do
  opens j
  closes j

/-- What a worker may have come to when every job has its fate. -/
def Fits (opens : α → Except ε Unit) (closes : α → Except ε β) (jobs : List α) :
    Worker ε α → Prop
  | .idle | .gone => True
  | .holding j => j ∈ jobs
  | .running j => j ∈ jobs ∧ opens j = .ok ()
  | .failed e => ∃ j ∈ jobs, fate opens closes j = .error e

/-- Jobs meet their fates, in a state where these are certain. -/
structure Fated (I : σ → Prop) (opens : α → Except ε Unit) (closes : α → Except ε β)
    (jobs : List α) (x : Pool ε α β × σ) : Prop where
  state : I x.2
  queue : ∀ j ∈ x.1.queue, j ∈ jobs
  workers : ∀ w ∈ x.1.workers, Fits opens closes jobs w
  results : ∀ e ∈ x.1.results, fate opens closes e.1 = .ok e.2

theorem Turn.fated (hstart : ∀ j, Effect.Yields I (start j) (opens j))
    (hfinish : ∀ j, Effect.Yields I (finish j) (closes j)) {w w' : Worker ε α}
    {queue queue' : List α} {new : List (α × β)} {s s' : σ}
    (h : Turn start finish w queue s w' queue' new s') (hs : I s)
    (hqueue : ∀ j ∈ queue, j ∈ jobs) (hw : Fits opens closes jobs w) :
    I s' ∧ (∀ j ∈ queue', j ∈ jobs) ∧ Fits opens closes jobs w' ∧
      ∀ e ∈ new, fate opens closes e.1 = .ok e.2 := by
  cases h with
  | leaves => exact ⟨hs, hqueue, trivial, nofun⟩
  | @takes j =>
    obtain ⟨hj, hrest⟩ := List.forall_mem_cons.mp hqueue
    exact ⟨hs, hrest, hj, nofun⟩
  | @starts j _ _ _ h =>
    obtain ⟨hopens, hs'⟩ := hstart j s hs
    rw [h] at hopens hs'
    exact ⟨hs', hqueue, ⟨hw, hopens.symm⟩, nofun⟩
  | @refused j e _ _ _ h =>
    obtain ⟨hopens, hs'⟩ := hstart j s hs
    rw [h] at hopens hs'
    refine ⟨hs', hqueue, ⟨j, hw, ?_⟩, nofun⟩
    rw [fate, ← hopens]
    rfl
  | @finishes j r _ _ _ h =>
    obtain ⟨hcloses, hs'⟩ := hfinish j s hs
    rw [h] at hcloses hs'
    refine ⟨hs', hqueue, trivial, fun e he => ?_⟩
    obtain rfl := List.mem_singleton.mp he
    rw [fate, hw.2, ← hcloses]
    rfl
  | @fails j e _ _ _ h =>
    obtain ⟨hcloses, hs'⟩ := hfinish j s hs
    rw [h] at hcloses hs'
    refine ⟨hs', hqueue, ⟨j, hw.1, ?_⟩, nofun⟩
    rw [fate, hw.2, ← hcloses]
    rfl

theorem Moves.fated (hstart : ∀ j, Effect.Yields I (start j) (opens j))
    (hfinish : ∀ j, Effect.Yields I (finish j) (closes j))
    (h : Moves start finish schedule (ofJobs n jobs, s) y) (hs : I s) :
    Fated I opens closes jobs y := by
  refine h.keeps ?_ ⟨hs, fun j hj => hj, fun w hw => ?_, nofun⟩
  · rintro _ _ _ (_ | hturn) ⟨hstate, hqueue, hworkers, hresults⟩
    · exact ⟨hstate, hqueue, hworkers, hresults⟩
    · obtain ⟨hs', hqueue', hw', hnew⟩ :=
        hturn.fated hstart hfinish hstate hqueue (hworkers _ (by simp))
      refine ⟨hs', hqueue', fun u hu => ?_, fun e he => ?_⟩
      · rcases eq_or_mem hu with rfl | hmem
        · exact hw'
        · exact hworkers u hmem
      · exact (List.mem_append.mp he).elim (hresults e) (hnew e)
  · obtain rfl := List.eq_of_mem_replicate hw
    exact trivial

end Fates

end Pool
end DocTables
