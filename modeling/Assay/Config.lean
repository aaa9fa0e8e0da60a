import Assay.Pipeline
import Assay.Scoring

/-!
# The settings

What a settings file can say, and what follows from it: the recipe of a submission, the comparison with the
reference, and how much work is done at a time. A command that is spelled out replaces the one that would be
derived from the project it builds.
-/

namespace Assay

inductive Mode
  /-- Build, run and validate every submission. -/
  | execute
  /-- Score every submission against every reference. -/
  | score
deriving DecidableEq, Repr, Inhabited

namespace Config

structure Build where
  /-- The program that a build makes. -/
  target : String := "main"
  clean : List String := ["make", "clean"]
  build : Option (List String) := none
  run : Option (List String) := none
  outputSubdirectory : Path := ⟨"bin"⟩
  runLimitSeconds : Nat := 300
deriving DecidableEq, Repr, Inhabited

structure Validate where
  referenceArtifact : Option Path := none
  artifactSuffix : String := ".png"
  compareProgram : String := "diff"
  limitSeconds : Nat := 30
deriving DecidableEq, Repr, Inhabited

structure Score where
  analyzer : String := ""
  referencesDirectory : Path := ⟨""⟩
  parts : List AnalyzerPart := []
  extraArguments : List String := []
  limitSeconds : Option Nat := none
deriving DecidableEq, Repr, Inhabited

end Config

/-- The settings of a whole run. -/
structure Config where
  mode : Mode := .execute
  submissionsDirectory : Path := ⟨"submissions"⟩
  outputDirectory : Path := ⟨"output"⟩
  jobs : Option Nat := none
  build : Config.Build := {}
  validate : Config.Validate := {}
  score : Config.Score := {}
  logKey : Option String := none
deriving DecidableEq, Repr, Inhabited

namespace Config

/-- The pool size asked for; zero asks for none. -/
def jobs? (config : Config) : Option Nat :=
  config.jobs.filter (0 < ·)

def poolSize (config : Config) (processors : Nat) : Nat :=
  config.jobs?.getD processors

/-- Names the execute log. Without a key of its own, a run is named after the program it builds. -/
def logName (config : Config) : String :=
  config.logKey.getD (((Path.mk config.build.target).fileName?.map RawText.lossy).getD config.build.target)

def commandOf (setting : String) (argv : List String) : Except Failure Command :=
  match Command.ofArgv? argv with
  | some command => .ok command
  | none => .error (.config (setting ++ " is empty"))

def Build.defaultBuild (build : Build) : Command :=
  ⟨"make", [(build.outputSubdirectory.join ⟨build.target⟩).shown]⟩

def Build.defaultRun (build : Build) : Command :=
  ⟨"./" ++ build.target, []⟩

def recipe (config : Config) : Except Failure Recipe := do
  let settings := config.build
  let clean ← commandOf "build.clean" settings.clean
  let build ← settings.build.elim (.ok settings.defaultBuild) (commandOf "build.build")
  let run ← settings.run.elim (.ok settings.defaultRun) (commandOf "build.run")
  return {
    clean, build, run
    outputSubdirectory := settings.outputSubdirectory
    runLimit := .ofSeconds settings.runLimitSeconds }

/-- Comparisons run in the output directory of a submission, so the reference is named from the root;
`directory` is where a relative one starts. -/
def comparator (config : Config) (directory : Location) : Except Failure Comparator :=
  match config.validate.referenceArtifact with
  | none => .error (.config "validate.reference_artifact is not set")
  | some reference =>
    if reference.text.isEmpty then .error (.io .emptyPath)
    else
      .ok
        { program := config.validate.compareProgram
          reference := reference.absolute directory.path
          limit := .ofSeconds config.validate.limitSeconds }

def analyzerRule (config : Config) : Except Failure AnalyzerRule :=
  if config.score.analyzer.isEmpty then .error (.config "score.analyzer is not set")
  else if config.score.parts.isEmpty then .error (.config "score.parts is empty")
  else
    .ok
      { program := config.score.analyzer
        parts := config.score.parts
        extraArguments := config.score.extraArguments
        limit := config.score.limitSeconds.map .ofSeconds }

end Config

end Assay
