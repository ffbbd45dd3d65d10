/-!
Worker pools: a bounded number of workers take jobs from one queue and carry them out. Workers move
one at a time, and a schedule says in which order. A worker leaves when the queue is empty or when a
job of its own fails; the failure ends the work of all once the pool gives notice of it.
-/
namespace DocTables

/-- What a worker does next: take a job, start the one it holds, finish the one that runs, or
nothing any more because the queue was empty or a job failed. -/
inductive Worker (ε α : Type) where
  | idle
  | holding (job : α)
  | running (job : α)
  | gone
  | failed (cause : ε)
  deriving DecidableEq, Repr

/-- When a failure is noticed: at once, or when all workers before the one that failed are gone. -/
inductive Notice where
  | atOnce | inOrder
  deriving DecidableEq, Repr

structure Pool (ε α β : Type) where
  queue : List α
  workers : List (Worker ε α)
  results : List (α × β)
  deriving DecidableEq, Repr

namespace Worker
variable {ε α : Type}

def isRunning : Worker ε α → Bool
  | running _ => true
  | _ => false

def isGone : Worker ε α → Bool
  | gone => true
  | _ => false

def failure? : Worker ε α → Option ε
  | failed e => some e
  | _ => none

/-- The worker makes no more moves. -/
def isOut (w : Worker ε α) : Bool := w.isGone || w.failure?.isSome

end Worker

namespace Pool
variable {ε α β : Type} {m : Type → Type} [Monad m]

def ofJobs (n : Nat) (jobs : List α) : Pool ε α β := ⟨jobs, List.replicate n .idle, []⟩

/-- How many jobs are running. -/
def load (p : Pool ε α β) : Nat := p.workers.countP Worker.isRunning

/-- The failure that ends the work, if there is one. -/
def failure? (notice : Notice) (p : Pool ε α β) : Option ε :=
  match notice with
  | .atOnce => p.workers.findSome? Worker.failure?
  | .inOrder => (p.workers.dropWhile Worker.isGone).head?.bind Worker.failure?

def put (p : Pool ε α β) (i : Nat) (w : Worker ε α) : Pool ε α β :=
  { p with workers := p.workers.set i w }

/-- One move of worker `i`. -/
def step (start : α → ExceptT ε m Unit) (finish : α → ExceptT ε m β) (i : Nat)
    (p : Pool ε α β) : m (Pool ε α β) :=
  match p.workers[i]? with
  | some .idle =>
    match p.queue with
    | [] => pure (p.put i .gone)
    | j :: js => pure { p.put i (.holding j) with queue := js }
  | some (.holding j) => do
    match ← (start j).run with
    | .ok () => return p.put i (.running j)
    | .error e => return p.put i (.failed e)
  | some (.running j) => do
    match ← (finish j).run with
    | .ok r => return { p.put i .idle with results := p.results ++ [(j, r)] }
    | .error e => return p.put i (.failed e)
  | some .gone | some (.failed _) | none => pure p

/-- The moves of a schedule, which lists workers, until a failure is noticed or all workers are
out. -/
def run (notice : Notice) (start : α → ExceptT ε m Unit) (finish : α → ExceptT ε m β) :
    List Nat → Pool ε α β → ExceptT ε m (Pool ε α β)
  | is, p =>
    match p.failure? notice, is with
    | some e, _ => throw e
    | none, [] => pure p
    | none, i :: is =>
      if p.workers.all Worker.isOut then pure p
      else do
        let p ← ExceptT.lift (p.step start finish i)
        run notice start finish is p

/-- The workers in turn. Each starts a job, and then in every round finishes it and starts another
one. -/
def inTurn (n rounds : Nat) : List Nat :=
  (List.range n).flatMap (List.replicate 2) ++
    (List.replicate rounds ((List.range n).flatMap (List.replicate 3))).flatten

/-- Carries out all jobs with `n` workers that move in turn. As many rounds as there are jobs are
enough, since a worker that is still there finishes a job in each. -/
def complete (notice : Notice) (start : α → ExceptT ε m Unit) (finish : α → ExceptT ε m β)
    (n : Nat) (jobs : List α) : ExceptT ε m (List (α × β)) := do
  let p ← run notice start finish (inTurn n jobs.length) (ofJobs n jobs)
  return p.results

end Pool
end DocTables
