import Assay.Config
import Assay.Json

/-!
# Reading settings

A section is an object, or an array of its fields in their order. What is not given keeps its default;
members that are not known are skipped, and those that are known are given at most once.
-/

namespace Assay.Config.Reader

/-- The largest number that fits into a machine word. -/
def wordLimit : Nat := 18446744073709551616

def natural? : Json → Option Nat
  | .natural value => if value < wordLimit then some value else none
  | _ => none

def string? : Json → Option String
  | .string text => text
  | _ => none

def path? (document : Json) : Option Path :=
  (string? document).map fun text : String => ⟨text⟩

def nullable? {α : Type} (read : Json → Option α) : Json → Option (Option α)
  | .null => some none
  | document => (read document).map some

def list? {α : Type} (read : Json → Option α) : Json → Option (List α)
  | .array items => items.mapM read
  | _ => none

/-- A mode is given by its name, or as an object with that name as its only member, which is null. -/
def mode? : Json → Option Mode
  | .string (some "execute") | .object [(some "execute", .null)] => some .execute
  | .string (some "score") | .object [(some "score", .null)] => some .score
  | _ => none

/-- The value of a member. A member that is given twice makes the document invalid, one that is not
given is none. -/
def member? (name : String) (members : List (Option String × Json)) : Option (Option Json) :=
  match members.filter fun entry => entry.1 = some name with
  | [] => some none
  | [entry] => some (some entry.2)
  | _ => none

/-- The values of the named members, in the order of the names. They may also be given as an array,
which may be too short; members with other names do not count. -/
def fields? (names : List String) : Json → Option (List (Option Json))
  | .object members =>
    if members.all fun entry => entry.1.isSome then names.mapM fun name => member? name members
    else none
  | .array items =>
    if items.length ≤ names.length then
      some (items.map some ++ List.replicate (names.length - items.length) none)
    else none
  | _ => none

/-- Reads a field, and keeps the default where it is not given. -/
def field {α : Type} (read : Json → Option α) (default : α) : Option Json → Option α
  | none => some default
  | some document => read document

def build? (document : Json) : Option Build := do
  let [target, clean, build, run, outputSubdirectory, runLimitSeconds] ←
      fields? ["target", "clean", "build", "run", "output_subdir", "run_timeout_secs"] document
    | none
  let default : Build := {}
  return {
    target := ← field string? default.target target
    clean := ← field (list? string?) default.clean clean
    build := ← field (nullable? (list? string?)) default.build build
    run := ← field (nullable? (list? string?)) default.run run
    outputSubdirectory := ← field path? default.outputSubdirectory outputSubdirectory
    runLimitSeconds := ← field natural? default.runLimitSeconds runLimitSeconds }

def validate? (document : Json) : Option Validate := do
  let [referenceArtifact, artifactSuffix, compareProgram, limitSeconds] ←
      fields? ["reference_artifact", "artifact_suffix", "compare_program", "timeout_secs"] document
    | none
  let default : Validate := {}
  return {
    referenceArtifact := ← field (nullable? path?) default.referenceArtifact referenceArtifact
    artifactSuffix := ← field string? default.artifactSuffix artifactSuffix
    compareProgram := ← field string? default.compareProgram compareProgram
    limitSeconds := ← field natural? default.limitSeconds limitSeconds }

/-- The fields of a part have no defaults. -/
def part? (document : Json) : Option AnalyzerPart := do
  let [some marker, some file] ← fields? ["marker", "file"] document | none
  return { marker := ← string? marker, file := ← string? file }

def score? (document : Json) : Option Score := do
  let [analyzer, referencesDirectory, parts, extraArguments, limitSeconds] ←
      fields? ["analyzer", "references_dir", "parts", "extra_args", "timeout_secs"] document
    | none
  let default : Score := {}
  return {
    analyzer := ← field string? default.analyzer analyzer
    referencesDirectory := ← field path? default.referencesDirectory referencesDirectory
    parts := ← field (list? part?) default.parts parts
    extraArguments := ← field (list? string?) default.extraArguments extraArguments
    limitSeconds := ← field (nullable? natural?) default.limitSeconds limitSeconds }

def config? (document : Json) : Option Config := do
  let [mode, submissionsDirectory, outputDirectory, jobs, build, validate, score, logKey] ←
      fields? ["mode", "submissions_dir", "output_dir", "jobs", "build", "validate", "score",
        "log_key"] document
    | none
  let default : Config := {}
  return {
    mode := ← field mode? default.mode mode
    submissionsDirectory := ← field path? default.submissionsDirectory submissionsDirectory
    outputDirectory := ← field path? default.outputDirectory outputDirectory
    jobs := ← field (nullable? natural?) default.jobs jobs
    build := ← field build? default.build build
    validate := ← field validate? default.validate validate
    score := ← field score? default.score score
    logKey := ← field (nullable? string?) default.logKey logKey }

end Assay.Config.Reader

namespace Assay.Config

def ofText (source : String) : Except Failure Config :=
  match Json.ofText? source >>= Reader.config? with
  | some config => .ok config
  | none => .error .configFormat

def load (files : Files) (path : Path) : Except Failure Config :=
  match files.readText files.directory path with
  | .ok text => ofText text
  | .error fault => .error (.config ("cannot read " ++ path.shown ++ ": " ++ fault.message))

/-- Where the settings are when nothing else is said. -/
def defaultPath : Path := ⟨"config/batch.json"⟩

end Assay.Config
