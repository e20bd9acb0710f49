/-
  Workers that share a list of jobs.

  A worker takes the number of the next job from a counter that all share, does the job, keeps
  the result, and takes another number until there is no job of that number. `Pool.run` lets the
  workers make their steps in a given order, whatever that is; `rounds` is an order in which all
  of them stop.
-/

namespace PhpSharp.Conversion

/-- What a worker does next. -/
inductive Phase (β : Type)
  /-- It takes a number. -/
  | idle
  /-- It does the job of the number it has taken, or stops if there is none. -/
  | holding (index : Nat)
  /-- It keeps the result of a job. -/
  | finished (result : β)
  /-- Nothing more. -/
  | stopped
  deriving DecidableEq, Repr

/-- A worker. -/
structure Worker (β : Type) where
  phase : Phase β := .idle
  /-- The results it has kept, first to last. -/
  results : List β := []
  deriving DecidableEq, Repr

/-- Workers and the number of the next job. -/
structure Pool (β : Type) where
  next : Nat := 0
  workers : List (Worker β)
  deriving DecidableEq, Repr

/-- Whether a worker has stopped. -/
def Worker.isStopped {β : Type} (w : Worker β) : Bool :=
  match w.phase with
  | .stopped => true
  | _ => false

namespace Pool

variable {m : Type → Type} [Monad m] {α β : Type}

/-- A pool of workers that have done nothing. -/
def fresh (size : Nat) : Pool β := { workers := List.replicate size {} }

/-- The pool with another worker in a place. -/
def put (p : Pool β) (worker : Nat) (w : Worker β) : Pool β :=
  { p with workers := p.workers.set worker w }

/-- A step of a worker: it takes a number, does a job, keeps a result or stops. -/
def step (jobs : List α) (work : Nat → α → m β) (p : Pool β) (worker : Nat) : m (Pool β) :=
  match p.workers[worker]? with
  | none => pure p
  | some w =>
    match w.phase with
    | .idle => pure { p.put worker { w with phase := .holding p.next } with next := p.next + 1 }
    | .holding index =>
      match jobs[index]? with
      | none => pure (p.put worker { w with phase := .stopped })
      | some job => do
        let result ← work index job
        pure (p.put worker { w with phase := .finished result })
    | .finished result => pure (p.put worker { results := w.results ++ [result] })
    | .stopped => pure p

/-- The steps of workers in the given order. -/
def run (jobs : List α) (work : Nat → α → m β) (order : List Nat) (p : Pool β) : m (Pool β) :=
  order.foldlM (fun p worker => p.step jobs work worker) p

/-- What all workers have kept, worker by worker. -/
def results (p : Pool β) : List β := p.workers.flatMap Worker.results

/-- Whether all workers have stopped. -/
def isDone (p : Pool β) : Bool := p.workers.all Worker.isStopped

/-- An order of steps, there and back, that is long enough for `size` workers to do `count`
    jobs, even if one of them does all of these. -/
def rounds (count size : Nat) : List Nat :=
  (List.range (2 * count + 1)).flatMap fun _ => List.range size ++ (List.range size).reverse

end Pool

end PhpSharp.Conversion
