import Assay.Event
import Assay.Files.Operations
import Assay.Process

/-!
# The world of a batch

Everything outside a batch that it can look at or change is handed on from step to step as one value.
-/

namespace Assay

/-- All that a batch can see or change: the files, what the runner remembers, and the events so far. -/
structure World (ρ : Type) where
  files : Files
  memory : ρ
  events : List Event
  /-- What is said of a panic as soon as it happens, wherever that is. -/
  hook : Panic → List Event := fun _ => []

namespace World

variable {ρ : Type}

def start (files : Files) (memory : ρ) : World ρ :=
  { files, memory, events := [] }

def note (world : World ρ) (event : Event) : World ρ :=
  { world with events := world.events ++ [event] }

def noteAll (world : World ρ) (events : List Event) : World ρ :=
  { world with events := world.events ++ events }

/-- What the hook says of what came of something. -/
def announced {α : Type} (world : World ρ) : Except Panic α → List Event
  | .ok _ => []
  | .error panic => world.hook panic

def debug (world : World ρ) (message : String) : World ρ :=
  world.note { level := .debug, message }

def info (world : World ρ) (message : String) : World ρ :=
  world.note { level := .info, message }

def warn (world : World ρ) (message : String) : World ρ :=
  world.note { level := .warn, message }

def error (world : World ρ) (message : String) : World ρ :=
  world.note { level := .error, message }

end World

end Assay
