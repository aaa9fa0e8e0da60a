import Assay.Outcome
import Assay.Text.Split

/-!
# Outcome lines

One line of an execute log. Nothing in a label or a command is escaped, so a line can be read back only
where the label has no closing bracket and neither has a line break.
-/

namespace Assay

/-- One line of an execute log: a verdict, the label it is for, and the command to blame. -/
structure Record where
  verdict : Verdict
  label : String
  command : Option String
deriving DecidableEq, Repr, Inhabited

namespace Record

def ofOutcome (label : String) (outcome : Outcome) : Record :=
  { verdict := outcome.verdict, label, command := outcome.command?.map Command.text }

def text (record : Record) : String :=
  let subject := record.verdict.text ++ ": [" ++ record.label ++ "]"
  match record.command with
  | none => subject
  | some command => subject ++ " \"" ++ command ++ "\""

/-- The characters between a leading and a trailing quote, which must be two different ones. -/
def unquote? : List Char → Option (List Char)
  | '"' :: rest => if rest.getLast? = some '"' then some rest.dropLast else none
  | _ => none

def parseCommand? (text : List Char) : Option (Option String) :=
  match Text.trimStart text with
  | [] => some none
  | quoted => (unquote? quoted).map fun command => some (String.ofList command)

/-- Reads one line back. Blanks at its end and between label and command do not count, a label ends at
the first bracket, and a command may hold quotes. -/
def parse? (line : String) : Option Record := do
  let (verdict, rest) ← Text.splitOnce [':', ' '] (Text.trimEnd line.toList)
  let verdict ← Verdict.ofText? (String.ofList verdict)
  let rest ← ['['].isPrefixOf? rest
  let (label, rest) ← Text.splitOnce [']'] rest
  let command ← parseCommand? rest
  return { verdict, label := String.ofList label, command }

def malformedMessage (line : String) : String :=
  "not an outcome line: " ++ line

/-- A line that holds no record, as it was given. -/
structure Malformed where
  line : String
deriving DecidableEq, Repr

def Malformed.message (malformed : Malformed) : String :=
  malformedMessage malformed.line

/-- Reads one line back, or hands it back. -/
def parse (line : String) : Except Malformed Record :=
  match parse? line with
  | some record => .ok record
  | none => .error ⟨line⟩

theorem parse_eq_ok_iff {line : String} {record : Record} :
    parse line = .ok record ↔ parse? line = some record := by
  rw [parse]
  cases parse? line <;> simp

theorem parse_eq_error_iff {line : String} {malformed : Malformed} :
    parse line = .error malformed ↔ malformed = ⟨line⟩ ∧ parse? line = none := by
  rw [parse]
  cases parse? line <;> simp [eq_comm]

/-- The records in a log, lines that hold none left out. -/
def readAll (log : String) : List Record :=
  (Text.lines log.toList).filterMap fun line => parse? (String.ofList line)

/-- The verdict of every label named in a log; the last line for a label decides. -/
def verdicts (log : String) : Table String Verdict :=
  (readAll log).foldl (fun table record => table.put record.label record.verdict) .empty

end Record

end Assay
