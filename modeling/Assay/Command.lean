namespace Assay

/-- A program and its arguments, kept apart so that no quoting is ever needed. -/
structure Command where
  program : String
  arguments : List String
deriving DecidableEq, Repr, Inhabited

namespace Command

def ofArgv? : List String → Option Command
  | [] => none
  | program :: arguments => some ⟨program, arguments⟩

def argv (command : Command) : List String :=
  command.program :: command.arguments

def text (command : Command) : String :=
  " ".intercalate command.argv

theorem ofArgv?_eq_some_iff {argv : List String} {command : Command} :
    ofArgv? argv = some command ↔ command.argv = argv := by
  cases argv with
  | nil => simp [ofArgv?, Command.argv]
  | cons program arguments =>
    cases command
    simp [ofArgv?, Command.argv]
    exact ⟨fun h => ⟨h.1.symm, h.2.symm⟩, fun h => ⟨h.1.symm, h.2.symm⟩⟩

end Command

end Assay
