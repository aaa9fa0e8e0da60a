import Assay.World

/-!
# Tasks

Workers share one world and take turns, but only between effects. The work of a worker is therefore a tree:
the next effect, and what follows for every reply. A tree is well founded, which is why every worker ends
whatever the replies are.
-/

namespace Assay

/-- One thing a worker asks of the world. -/
inductive Effect
  | run (call : Call)
  | ensureDirectory (path : Path)
  | listFiles (directory : Path)
  | openStream (path : Path)
  | note (event : Event)

def Effect.Reply : Effect → Type
  | run _ => Ending
  | ensureDirectory _ => Except Fault Unit
  | listFiles _ => Except Fault (List RawText)
  | openStream _ => Except Fault StreamId
  | note _ => Unit

def Effect.perform {ρ : Type} (runner : Runner ρ) (world : World ρ) :
    (effect : Effect) → Except Panic effect.Reply × World ρ
  | run call =>
    match runner call world.files world.memory with
    | (ending, files, memory) =>
      (ending, { world with files, memory, events := world.events ++ world.announced ending })
  | ensureDirectory path =>
    match world.files.ensureDirectory world.files.directory path with
    | (result, files) => (.ok result, { world with files })
  | listFiles path => (.ok (world.files.listFiles world.files.directory path), world)
  | openStream path =>
    match world.files.openStream world.files.directory path .truncate with
    | .ok (stream, files) => (.ok (.ok stream), { world with files })
    | .error fault => (.ok (.error fault), world)
  | note event => (.ok (), world.note event)

/-- The work of one worker: what it asks for, one effect after the other, and its result. Workers are
interleaved between effects, so a task is kept as data. -/
inductive Task (α : Type)
  | done (value : α)
  | perform (effect : Effect) (next : effect.Reply → Task α)

namespace Task

variable {α β ρ : Type}

def bind : Task α → (α → Task β) → Task β
  | done value, next => next value
  | perform effect rest, next => perform effect fun reply => (rest reply).bind next

instance : Monad Task where
  pure := done
  bind := bind

def ask (effect : Effect) : Task effect.Reply := perform effect done

def call (call : Call) : Task Ending := ask (.run call)

def ensureDirectory (path : Path) : Task (Except Fault Unit) := ask (.ensureDirectory path)

def listFiles (directory : Path) : Task (Except Fault (List RawText)) := ask (.listFiles directory)

def openStream (path : Path) : Task (Except Fault StreamId) := ask (.openStream path)

def note (level : Level) (message : String) (fields : List (String × String) := []) : Task Unit :=
  ask (.note { level, message, fields })

/-- Runs a task alone. -/
def run (runner : Runner ρ) : Task α → World ρ → Except Panic α × World ρ
  | done value, world => (.ok value, world)
  | perform effect next, world =>
    match effect.perform runner world with
    | (.ok reply, world) => (next reply).run runner world
    | (.error panic, world) => (.error panic, world)

@[simp]
theorem done_bind (value : α) (next : α → Task β) : (done value).bind next = next value := rfl

@[simp]
theorem bind_done (task : Task α) : task.bind done = task := by
  induction task with
  | done value => rfl
  | perform effect rest ih => simp [bind, ih]

theorem bind_assoc {γ : Type} (task : Task α) (first : α → Task β) (second : β → Task γ) :
    (task.bind first).bind second = task.bind fun value => (first value).bind second := by
  induction task with
  | done value => rfl
  | perform effect rest ih => simp [bind, ih]

theorem run_bind (runner : Runner ρ) (task : Task α) (next : α → Task β) (world : World ρ) :
    (task.bind next).run runner world =
      match task.run runner world with
      | (.ok value, world) => (next value).run runner world
      | (.error panic, world) => (.error panic, world) := by
  induction task generalizing world with
  | done value => rfl
  | perform effect rest ih =>
    simp only [bind, run]
    match effect.perform runner world with
    | (.ok reply, world) => exact ih reply world
    | (.error panic, world) => rfl

end Task

end Assay
