import Assay.Pool

/-!
# Batches

A batch is a pool at work together with what has been gathered from it. Results are taken one at a time, in
the order in which workers finish, and a collector that fails stops the pool: whoever has not finished is
aborted and gives its permit back.
-/

namespace Assay

/-- What becomes of the jobs of a batch. -/
structure Collector (ι α γ ρ : Type) where
  /-- What a worker that breaks down says of it there and then. -/
  lament : ι → Panic → List Event
  /-- Takes the result of one job. A failure stops the whole batch. -/
  take : ι → Except Panic α → γ → World ρ → Except Failure γ × World ρ

/-- A pool at work, and what has been gathered from it so far. -/
structure Batch (ι α γ ρ : Type) where
  pool : Pool ι α
  gathered : γ
  world : World ρ

namespace Batch

variable {ι α γ ρ : Type}

inductive Turn (ι α γ ρ : Type)
  | idle
  | continued (batch : Batch ι α γ ρ)
  | stopped (failure : Failure) (batch : Batch ι α γ ρ)

def enter (batch : Batch ι α γ ρ) (index : Nat) (task : Task α) : Batch ι α γ ρ :=
  let pool := { batch.pool.setPhase index (.active task) with free := batch.pool.free - 1 }
  { batch with pool := { pool with peak := max pool.peak pool.active } }

def finish (batch : Batch ι α γ ρ) (index : Nat) (result : Except Panic α) (world : World ρ) :
    Batch ι α γ ρ :=
  { batch with
    pool := { batch.pool.setPhase index (.finished result) with free := batch.pool.free + 1 }
    world }

/-- Makes one move; a move that is not possible changes nothing. -/
def make (runner : Runner ρ) (collector : Collector ι α γ ρ) (batch : Batch ι α γ ρ) (move : Move) :
    Turn ι α γ ρ :=
  match move with
  | .enter index =>
    match batch.pool.workers[index]? with
    | some ⟨_, .waiting task⟩ =>
      if 0 < batch.pool.free then .continued (batch.enter index task) else .idle
    | _ => .idle
  | .advance index =>
    match batch.pool.workers[index]? with
    | some ⟨_, .active (.done value)⟩ => .continued (batch.finish index (.ok value) batch.world)
    | some ⟨job, .active (.perform effect next)⟩ =>
      match effect.perform runner batch.world with
      | (.ok reply, world) =>
        .continued { batch with pool := batch.pool.setPhase index (.active (next reply)), world }
      | (.error panic, world) =>
        .continued (batch.finish index (.error panic) (world.noteAll (collector.lament job panic)))
    | _ => .idle
  | .collect index =>
    match batch.pool.workers[index]? with
    | some ⟨job, .finished result⟩ =>
      let pool := batch.pool.setPhase index .collected
      match collector.take job result batch.gathered batch.world with
      | (.ok gathered, world) => .continued { pool, gathered, world }
      | (.error failure, world) => .stopped failure { batch with pool := pool.abort, world }
    | _ => .idle

theorem follows_of_make {runner : Runner ρ} {collector : Collector ι α γ ρ}
    {batch next : Batch ι α γ ρ} {move : Move} (h : batch.make runner collector move = .continued next) :
    Pool.Follows next.pool.workers batch.pool.workers := by
  cases move with
  | enter index =>
    simp only [make] at h
    split at h
    · next job task hget =>
      split at h
      · cases h
        exact Pool.follows_modify hget (.admitted task)
      · cases h
    · cases h
  | advance index =>
    simp only [make] at h
    split at h
    · next job value hget =>
      cases h
      exact Pool.follows_modify hget (.finished value)
    · next job effect rest hget =>
      split at h
      · next reply world _ =>
        cases h
        exact Pool.follows_modify hget (.advanced effect rest reply)
      · next panic world _ =>
        cases h
        exact Pool.follows_modify hget (.panicked effect rest panic)
    · cases h
  | collect index =>
    simp only [make] at h
    split at h
    · next job result hget =>
      split at h
      · cases h
        exact Pool.follows_modify hget (.collected result)
      · cases h
    · cases h

/-- Why a batch did not come to its end. -/
inductive Stop
  | failed (failure : Failure)
  | panicked (panic : Panic)
deriving DecidableEq, Repr

/-- A batch that came to its end, or was stopped. -/
structure Result (ι α γ ρ : Type) where
  stop : Option Stop
  batch : Batch ι α γ ρ

instance : WellFoundedRelation (List (Worker ι α)) := ⟨Pool.Follows, Pool.wellFounded_follows⟩

/-- Makes moves in the order of the schedule until none is left or the batch is stopped. -/
def runFrom (runner : Runner ρ) (collector : Collector ι α γ ρ) (schedule : Schedule) (tick : Nat)
    (batch : Batch ι α γ ρ) : Result ι α γ ρ :=
  match schedule.pick tick batch.pool.moves with
  | none => ⟨none, batch⟩
  | some move =>
    match hmake : batch.make runner collector move with
    | .idle => ⟨none, batch⟩
    | .continued next => runFrom runner collector schedule (tick + 1) next
    | .stopped failure stopped => ⟨some (.failed failure), stopped⟩
termination_by batch.pool.workers
decreasing_by exact follows_of_make hmake

/-- Starts a pool and runs it. Where there cannot be a pool of that size, nothing is run. -/
def run (runner : Runner ρ) (collector : Collector ι α γ ρ) (schedule : Schedule) (jobs : Nat)
    (work : List (ι × Task α)) (gathered : γ) (world : World ρ) : Result ι α γ ρ :=
  match Pool.start jobs work with
  | .ok pool => runFrom runner collector schedule 0 { pool, gathered, world }
  | .error panic => ⟨some (.panicked panic), { pool := .empty, gathered, world }⟩

end Batch

end Assay
