import Assay.Files.Action
import Assay.Host.Launch
import Assay.Json
import Assay.Program

/-!
# Command line

Reads a set of files from standard input, runs the program on a host with these files, and prints what
it has to say and the execute logs and outputs it leaves. The files are a JSON object of paths: a string
is the content of a file, an array with one string that of an executable file, an object with a `link`
the target of a link, and `null` stands for a directory. The settings are in the file that the first
argument names.
-/

namespace Assay.Main

/-- The directory that the given files are in. -/
def workDirectory : Location := ["work"]

def action? : Option String × Json → Option FileAction
  | (some path, .null) => some (.directory ⟨path⟩)
  | (some path, .string (some text)) => some (.file ⟨path⟩ (Bytes.ofText text) false)
  | (some path, .array [.string (some text)]) => some (.file ⟨path⟩ (Bytes.ofText text) true)
  | (some path, .object [(some "link", .string (some target))]) => some (.link ⟨path⟩ ⟨target⟩)
  | _ => none

/-- A host's files with those that a document describes. -/
def filesOf? (document : Json) : Option Files :=
  match document with
  | .object members =>
    (members.mapM action?).map fun actions =>
      FileAction.applyAll (Host.install (.bare workDirectory)) workDirectory actions
  | _ => none

/-- The program on a host. One worker after the other is as good as many. -/
def program : Program Host.Machine :=
  { runner := Host.runner
    schedule := .prompt
    processors := 1
    locate := fun _ => "?"
    breakdown := fun reference panic => reference.label ++ ": " ++ panic.message }

/-- The lines to be printed for a run: what was said, and how it failed. -/
def report (exit : Exit) (events : List Event) : List String :=
  (events.filter (·.level ≠ .debug)).map Event.text ++
    match exit with
    | .completed => []
    | .failed failure => ["Error: " ++ failure.message]
    | .panicked panic => ["Panic: " ++ panic.message]

/-- The files that are there after a run and were not there before, with their contents. -/
def newFiles (before after : Files) : List (String × String) :=
  (after.below workDirectory).filterMap fun location =>
    match before.node? location, after.node? location with
    | none, some (.file _ content _) =>
      some ((RawText.intercalate "/" (location.drop workDirectory.length)).lossy, (Bytes.text? content).getD "")
    | _, _ => none

partial def readAll (stream : IO.FS.Stream) (text : String) : IO String := do
  let line ← stream.getLine
  if line.isEmpty then return text else readAll stream (text ++ line)

end Assay.Main

/-- Runs the program on the files that standard input describes. -/
def main (arguments : List String) : IO UInt32 := do
  let source ← Assay.Main.readAll (← IO.getStdin) ""
  match Assay.Json.ofText? source >>= Assay.Main.filesOf? with
  | none =>
    IO.eprintln "standard input does not describe files"
    return 2
  | some files =>
    let settings := (arguments.head?.map Assay.Path.mk).getD Assay.Config.defaultPath
    let (exit, world) := Assay.Main.program.run settings (.start files .start)
    for line in Assay.Main.report exit world.events do
      IO.println line
    for (name, content) in Assay.Main.newFiles files world.files do
      IO.println ("== " ++ name)
      IO.print content
    return exit.code.toUInt32
