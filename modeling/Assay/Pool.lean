import Assay.Task

/-!
# Worker pools

A pool has a number of permits, and a worker needs one of them to be active. Which of the possible moves
happens next is up to a `Schedule`, about which nothing is assumed; that a pool ends under any schedule is
`Pool.wellFounded_follows`.
-/

namespace Assay

/-- What a worker is up to. It holds a permit exactly while it is active. -/
inductive Phase (α : Type)
  | waiting (task : Task α)
  | active (task : Task α)
  | finished (result : Except Panic α)
  | collected
  | aborted

namespace Phase

variable {α : Type}

def isActive : Phase α → Bool
  | active _ => true
  | _ => false

/-- The worker will do nothing any more, and nothing is left to be taken from it. -/
def isSettled : Phase α → Bool
  | collected | aborted => true
  | _ => false

def abort : Phase α → Phase α
  | waiting _ | active _ => aborted
  | phase => phase

/-- The first phase can come directly after the second. -/
inductive Follows : Phase α → Phase α → Prop
  | admitted (task : Task α) : Follows (active task) (waiting task)
  | advanced (effect : Effect) (next : effect.Reply → Task α) (reply : effect.Reply) :
      Follows (active (next reply)) (active (.perform effect next))
  | finished (value : α) : Follows (finished (.ok value)) (active (.done value))
  | panicked (effect : Effect) (next : effect.Reply → Task α) (panic : Panic) :
      Follows (finished (.error panic)) (active (.perform effect next))
  | collected (result : Except Panic α) : Follows collected (finished result)

theorem acc_collected : Acc Follows (collected : Phase α) :=
  ⟨_, fun _ h => by cases h⟩

theorem acc_finished (result : Except Panic α) : Acc Follows (finished result) :=
  ⟨_, fun _ h => by cases h; exact acc_collected⟩

theorem acc_active (task : Task α) : Acc Follows (active task) := by
  induction task with
  | done value => exact ⟨_, fun _ h => by cases h; exact acc_finished _⟩
  | perform effect next ih =>
    refine ⟨_, fun _ h => ?_⟩
    cases h with
    | advanced _ _ reply => exact ih reply
    | panicked _ _ panic => exact acc_finished _

/-- No worker goes on for ever. -/
theorem wellFounded_follows : WellFounded (Follows : Phase α → Phase α → Prop) := by
  refine ⟨fun phase => ?_⟩
  cases phase with
  | waiting task => exact ⟨_, fun _ h => by cases h; exact acc_active task⟩
  | active task => exact acc_active task
  | finished result => exact acc_finished result
  | collected => exact acc_collected
  | aborted => exact ⟨_, fun _ h => by cases h⟩

end Phase

structure Worker (ι α : Type) where
  job : ι
  phase : Phase α

/-- Workers and the permits that none of them holds. -/
structure Pool (ι α : Type) where
  free : Nat
  workers : List (Worker ι α)
  /-- The most workers that were active at once. -/
  peak : Nat

/-- Something that can happen next in a pool: a waiting worker gets a permit, an active worker asks for
its next effect or gives its permit back, or the result of a finished one is taken. -/
inductive Move
  | enter (worker : Nat)
  | advance (worker : Nat)
  | collect (worker : Nat)
deriving DecidableEq, Repr

/-- Picks one of the possible moves at every tick, counted round where the number is too large. -/
def Schedule := Nat → List Move → Nat

namespace Schedule

def pick (schedule : Schedule) (tick : Nat) (moves : List Move) : Option Move :=
  moves[schedule tick moves % moves.length]?

/-- Takes results as soon as they are there, hands out permits in the order of the workers, and lets
active workers take turns. -/
def prompt : Schedule := fun tick moves =>
  let collects := moves.findIdx? fun | .collect _ => true | _ => false
  let entries := moves.findIdx? fun | .enter _ => true | _ => false
  (collects <|> entries).getD tick

end Schedule

namespace Pool

variable {ι α : Type}

/-- The most permits that a pool can have. -/
def maxPermits : Nat := 2305843009213693951

/-- A pool without any jobs at a time has one all the same. -/
def permits (jobs : Nat) : Nat := max jobs 1

def tooManyPermits : Panic :=
  ⟨"a semaphore may not have more than MAX_PERMITS permits (" ++ Nat.repr maxPermits ++ ")"⟩

def empty : Pool ι α := { free := 0, workers := [], peak := 0 }

def start (jobs : Nat) (work : List (ι × Task α)) : Except Panic (Pool ι α) :=
  if maxPermits < permits jobs then .error tooManyPermits
  else
    .ok
      { free := permits jobs
        workers := work.map fun (job, task) => { job, phase := .waiting task }
        peak := 0 }

def active (pool : Pool ι α) : Nat :=
  pool.workers.countP (·.phase.isActive)

def setPhase (pool : Pool ι α) (index : Nat) (phase : Phase α) : Pool ι α :=
  { pool with workers := pool.workers.modify index fun worker => { worker with phase } }

def moves (pool : Pool ι α) : List Move :=
  pool.workers.zipIdx.filterMap fun (worker, index) =>
    match worker.phase with
    | .waiting _ => if 0 < pool.free then some (.enter index) else none
    | .active _ => some (.advance index)
    | .finished _ => some (.collect index)
    | .collected | .aborted => none

/-- Stops everybody who has not finished and takes their permits back. -/
def abort (pool : Pool ι α) : Pool ι α :=
  { pool with
    free := pool.free + pool.active
    workers := pool.workers.map fun worker => { worker with phase := worker.phase.abort } }

/-- One of the workers on the right took one step, which gives the workers on the left. -/
inductive Follows : List (Worker ι α) → List (Worker ι α) → Prop
  | here {old new : Phase α} (job : ι) (rest : List (Worker ι α)) :
      Phase.Follows new old → Follows (⟨job, new⟩ :: rest) (⟨job, old⟩ :: rest)
  | there {old new : List (Worker ι α)} (worker : Worker ι α) :
      Follows new old → Follows (worker :: new) (worker :: old)

theorem acc_cons {phase : Phase α} (hphase : Acc Phase.Follows phase) (job : ι) :
    ∀ {rest : List (Worker ι α)}, Acc Follows rest → Acc Follows (⟨job, phase⟩ :: rest) := by
  induction hphase with
  | intro phase _ ihphase =>
    intro rest hrest
    induction hrest with
    | intro rest hacc ihrest =>
      refine ⟨_, fun _ h => ?_⟩
      cases h with
      | here _ _ h => exact ihphase _ h ⟨_, hacc⟩
      | there _ h => exact ihrest _ h

/-- However the workers are scheduled, a pool comes to an end. -/
theorem wellFounded_follows :
    WellFounded (Follows : List (Worker ι α) → List (Worker ι α) → Prop) := by
  refine ⟨fun workers => ?_⟩
  induction workers with
  | nil => exact ⟨_, fun _ h => by cases h⟩
  | cons worker rest ih => exact acc_cons (Phase.wellFounded_follows.apply worker.phase) worker.job ih

theorem follows_modify {workers : List (Worker ι α)} {index : Nat} {worker : Worker ι α}
    {phase : Phase α} (hget : workers[index]? = some worker) (h : phase.Follows worker.phase) :
    Follows (workers.modify index fun worker => { worker with phase }) workers := by
  induction workers generalizing index with
  | nil => simp at hget
  | cons first rest ih =>
    cases index with
    | zero =>
      obtain rfl : first = worker := by simpa using hget
      exact .here _ _ h
    | succ index => exact .there _ (ih (by simpa using hget))

end Pool

end Assay
