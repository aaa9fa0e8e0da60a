import Assay.Task

/-!
# The moments of a task

A task that is run alone performs one effect after the other. Its moments are those effects, each with the
world it was performed in. What a task asks of the runner and what it notes are both read off its moments,
so that one law about `bind` serves for all of them.
-/

namespace Assay

/-- An effect and the world it was performed in. -/
structure Moment (ρ : Type) where
  effect : Effect
  world : World ρ

/-- A call as the runner sees it. -/
structure Issue (ρ : Type) where
  call : Call
  files : Files
  memory : ρ

namespace Issue

variable {ρ : Type} (runner : Runner ρ) (issue : Issue ρ)

def answer : Except Panic Ending := (runner issue.call issue.files issue.memory).1

def filesAfter : Files := (runner issue.call issue.files issue.memory).2.1

def memoryAfter : ρ := (runner issue.call issue.files issue.memory).2.2

end Issue

namespace Moment

variable {ρ : Type}

def issue? : Moment ρ → Option (Issue ρ)
  | ⟨.run call, world⟩ => some ⟨call, world.files, world.memory⟩
  | _ => none

def event? : Moment ρ → Option Event
  | ⟨.note event, _⟩ => some event
  | _ => none

end Moment

namespace Task

variable {α β ρ : Type} (runner : Runner ρ)

/-- The effects of a task that is run alone, in order. Nothing follows an effect that panics. -/
def moments : Task α → World ρ → List (Moment ρ)
  | done _, _ => []
  | perform effect next, world =>
    ⟨effect, world⟩ ::
      match effect.perform runner world with
      | (.ok reply, world) => (next reply).moments world
      | (.error _, _) => []

def issues (task : Task α) (world : World ρ) : List (Issue ρ) :=
  (task.moments runner world).filterMap Moment.issue?

def notes (task : Task α) (world : World ρ) : List Event :=
  (task.moments runner world).filterMap Moment.event?

@[simp]
theorem pure_eq_done (value : α) : (pure value : Task α) = done value := rfl

@[simp]
theorem monadBind_eq_bind (task : Task α) (next : α → Task β) : (task >>= next) = task.bind next :=
  rfl

@[simp]
theorem moments_done (value : α) (world : World ρ) : (done value).moments runner world = [] := rfl

theorem moments_bind (task : Task α) (next : α → Task β) (world : World ρ) :
    (task.bind next).moments runner world =
      task.moments runner world ++
        match task.run runner world with
        | (.ok value, world) => (next value).moments runner world
        | (.error _, _) => [] := by
  induction task generalizing world with
  | done value => rfl
  | perform effect rest ih =>
    simp only [bind, moments, run]
    rcases effect.perform runner world with ⟨panic | reply, after⟩
    · rfl
    · simp [ih reply after]

theorem issues_bind (task : Task α) (next : α → Task β) (world : World ρ) :
    (task.bind next).issues runner world =
      task.issues runner world ++
        match task.run runner world with
        | (.ok value, world) => (next value).issues runner world
        | (.error _, _) => [] := by
  rw [issues, moments_bind, List.filterMap_append]
  rcases task.run runner world with ⟨panic | value, after⟩
  · rfl
  · rfl

theorem notes_bind (task : Task α) (next : α → Task β) (world : World ρ) :
    (task.bind next).notes runner world =
      task.notes runner world ++
        match task.run runner world with
        | (.ok value, world) => (next value).notes runner world
        | (.error _, _) => [] := by
  rw [notes, moments_bind, List.filterMap_append]
  rcases task.run runner world with ⟨panic | value, after⟩
  · rfl
  · rfl

end Task

end Assay
