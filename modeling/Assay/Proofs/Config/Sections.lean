import Assay.Proofs.Config.Overlay
import Assay.Proofs.Path.Steps

/-!
# The sections of the settings

Every section that has defaults is an object laid over them, and so are the settings as a whole, of which the sections
are fields. All that is read is text, the paths in it included.
-/

namespace Assay

namespace Config

open Json (Members)
open Reader

/-! ### What is built -/

def buildFields : List (Field Build) :=
  [ { name := "target", Value := String, read := string?, get := (·.target)
      set := fun target settings => { settings with target } },
    { name := "clean", Value := List String, read := list? string?, get := (·.clean)
      set := fun clean settings => { settings with clean } },
    { name := "build", Value := Option (List String), read := nullable? (list? string?), get := (·.build)
      set := fun build settings => { settings with build } },
    { name := "run", Value := Option (List String), read := nullable? (list? string?), get := (·.run)
      set := fun run settings => { settings with run } },
    { name := "output_subdir", Value := Path, read := path?, get := (·.outputSubdirectory)
      set := fun outputSubdirectory settings => { settings with outputSubdirectory } },
    { name := "run_timeout_secs", Value := Nat, read := natural?, get := (·.runLimitSeconds)
      set := fun runLimitSeconds settings => { settings with runLimitSeconds } } ]

theorem build?_eq_some_iff {members : Members} {settings : Build} :
    build? (.ofMembers members) = some settings ↔
      ∀ field ∈ buildFields, field.Says {} members (field.get settings) := by
  simp only [Field.says_iff, buildFields, List.forall_mem_cons, List.not_mem_nil, false_implies, implies_true,
    and_true]
  unfold build?
  rw [fields?_ofMembers]
  simp only [List.mapM_cons, List.mapM_nil]
  rcases member? "target" members.entries with _ | target
  · simp
  rcases member? "clean" members.entries with _ | clean
  · simp
  rcases member? "build" members.entries with _ | command
  · simp
  rcases member? "run" members.entries with _ | run
  · simp
  rcases member? "output_subdir" members.entries with _ | outputSubdirectory
  · simp
  rcases member? "run_timeout_secs" members.entries with _ | runLimitSeconds
  · simp
  cases settings
  simp only [Option.bind_eq_bind, Option.bind_some, Option.pure_def, Option.bind_eq_some_iff,
    Option.some.injEq, Build.mk.injEq]
  grind

def Build.overlay : Overlay Build where
  read? := build?
  defaults := {}
  fields := buildFields
  named hread := by
    obtain ⟨values, hvalues, -⟩ := Option.bind_eq_some_iff.mp hread
    exact named_of_fields? hvalues
  independent := by simp [buildFields, Field.independent_iff]
  read?_eq_some_iff := build?_eq_some_iff

/-! ### How it is validated -/

def validateFields : List (Field Validate) :=
  [ { name := "reference_artifact", Value := Option Path, read := nullable? path?, get := (·.referenceArtifact)
      set := fun referenceArtifact settings => { settings with referenceArtifact } },
    { name := "artifact_suffix", Value := String, read := string?, get := (·.artifactSuffix)
      set := fun artifactSuffix settings => { settings with artifactSuffix } },
    { name := "compare_program", Value := String, read := string?, get := (·.compareProgram)
      set := fun compareProgram settings => { settings with compareProgram } },
    { name := "timeout_secs", Value := Nat, read := natural?, get := (·.limitSeconds)
      set := fun limitSeconds settings => { settings with limitSeconds } } ]

theorem validate?_eq_some_iff {members : Members} {settings : Validate} :
    validate? (.ofMembers members) = some settings ↔
      ∀ field ∈ validateFields, field.Says {} members (field.get settings) := by
  simp only [Field.says_iff, validateFields, List.forall_mem_cons, List.not_mem_nil, false_implies, implies_true,
    and_true]
  unfold validate?
  rw [fields?_ofMembers]
  simp only [List.mapM_cons, List.mapM_nil]
  rcases member? "reference_artifact" members.entries with _ | referenceArtifact
  · simp
  rcases member? "artifact_suffix" members.entries with _ | artifactSuffix
  · simp
  rcases member? "compare_program" members.entries with _ | compareProgram
  · simp
  rcases member? "timeout_secs" members.entries with _ | limitSeconds
  · simp
  cases settings
  simp only [Option.bind_eq_bind, Option.bind_some, Option.pure_def, Option.bind_eq_some_iff,
    Option.some.injEq, Validate.mk.injEq]
  grind

def Validate.overlay : Overlay Validate where
  read? := validate?
  defaults := {}
  fields := validateFields
  named hread := by
    obtain ⟨values, hvalues, -⟩ := Option.bind_eq_some_iff.mp hread
    exact named_of_fields? hvalues
  independent := by simp [validateFields, Field.independent_iff]
  read?_eq_some_iff := validate?_eq_some_iff

/-! ### How it is scored -/

def scoreFields : List (Field Score) :=
  [ { name := "analyzer", Value := String, read := string?, get := (·.analyzer)
      set := fun analyzer settings => { settings with analyzer } },
    { name := "references_dir", Value := Path, read := path?, get := (·.referencesDirectory)
      set := fun referencesDirectory settings => { settings with referencesDirectory } },
    { name := "parts", Value := List AnalyzerPart, read := list? part?, get := (·.parts)
      set := fun parts settings => { settings with parts } },
    { name := "extra_args", Value := List String, read := list? string?, get := (·.extraArguments)
      set := fun extraArguments settings => { settings with extraArguments } },
    { name := "timeout_secs", Value := Option Nat, read := nullable? natural?, get := (·.limitSeconds)
      set := fun limitSeconds settings => { settings with limitSeconds } } ]

theorem score?_eq_some_iff {members : Members} {settings : Score} :
    score? (.ofMembers members) = some settings ↔
      ∀ field ∈ scoreFields, field.Says {} members (field.get settings) := by
  simp only [Field.says_iff, scoreFields, List.forall_mem_cons, List.not_mem_nil, false_implies, implies_true,
    and_true]
  unfold score?
  rw [fields?_ofMembers]
  simp only [List.mapM_cons, List.mapM_nil]
  rcases member? "analyzer" members.entries with _ | analyzer
  · simp
  rcases member? "references_dir" members.entries with _ | referencesDirectory
  · simp
  rcases member? "parts" members.entries with _ | parts
  · simp
  rcases member? "extra_args" members.entries with _ | extraArguments
  · simp
  rcases member? "timeout_secs" members.entries with _ | limitSeconds
  · simp
  cases settings
  simp only [Option.bind_eq_bind, Option.bind_some, Option.pure_def, Option.bind_eq_some_iff,
    Option.some.injEq, Score.mk.injEq]
  grind

def Score.overlay : Overlay Score where
  read? := score?
  defaults := {}
  fields := scoreFields
  named hread := by
    obtain ⟨values, hvalues, -⟩ := Option.bind_eq_some_iff.mp hread
    exact named_of_fields? hvalues
  independent := by simp [scoreFields, Field.independent_iff]
  read?_eq_some_iff := score?_eq_some_iff

/-! ### All settings -/

def buildField : Field Config where
  name := "build"
  Value := Build
  read := build?
  get := (·.build)
  set build settings := { settings with build }

def validateField : Field Config where
  name := "validate"
  Value := Validate
  read := validate?
  get := (·.validate)
  set validate settings := { settings with validate }

def scoreField : Field Config where
  name := "score"
  Value := Score
  read := score?
  get := (·.score)
  set score settings := { settings with score }

def configFields : List (Field Config) :=
  [ { name := "mode", Value := Mode, read := mode?, get := (·.mode)
      set := fun mode settings => { settings with mode } },
    { name := "submissions_dir", Value := Path, read := path?, get := (·.submissionsDirectory)
      set := fun submissionsDirectory settings => { settings with submissionsDirectory } },
    { name := "output_dir", Value := Path, read := path?, get := (·.outputDirectory)
      set := fun outputDirectory settings => { settings with outputDirectory } },
    { name := "jobs", Value := Option Nat, read := nullable? natural?, get := (·.jobs)
      set := fun jobs settings => { settings with jobs } },
    buildField, validateField, scoreField,
    { name := "log_key", Value := Option String, read := nullable? string?, get := (·.logKey)
      set := fun logKey settings => { settings with logKey } } ]

theorem config?_eq_some_iff {members : Members} {settings : Config} :
    config? (.ofMembers members) = some settings ↔
      ∀ field ∈ configFields, field.Says {} members (field.get settings) := by
  simp only [Field.says_iff, configFields, buildField, validateField, scoreField, List.forall_mem_cons,
    List.not_mem_nil, false_implies, implies_true, and_true]
  unfold config?
  rw [fields?_ofMembers]
  simp only [List.mapM_cons, List.mapM_nil]
  rcases member? "mode" members.entries with _ | mode
  · simp
  rcases member? "submissions_dir" members.entries with _ | submissionsDirectory
  · simp
  rcases member? "output_dir" members.entries with _ | outputDirectory
  · simp
  rcases member? "jobs" members.entries with _ | jobs
  · simp
  rcases member? "build" members.entries with _ | build
  · simp
  rcases member? "validate" members.entries with _ | validate
  · simp
  rcases member? "score" members.entries with _ | score
  · simp
  rcases member? "log_key" members.entries with _ | logKey
  · simp
  cases settings
  simp only [Option.bind_eq_bind, Option.bind_some, Option.pure_def, Option.bind_eq_some_iff,
    Option.some.injEq, mk.injEq]
  grind

def overlay : Overlay Config where
  read? := config?
  defaults := {}
  fields := configFields
  named hread := by
    obtain ⟨values, hvalues, -⟩ := Option.bind_eq_some_iff.mp hread
    exact named_of_fields? hvalues
  independent := by
    simp [configFields, buildField, validateField, scoreField, Field.independent_iff]
  read?_eq_some_iff := config?_eq_some_iff

/-- The sections that have defaults of their own. -/
inductive Section
  | build
  | validate
  | score

namespace Section

def field : Section → Field Config
  | build => buildField
  | validate => validateField
  | score => scoreField

def overlay : (part : Section) → Overlay part.field.Value
  | build => Build.overlay
  | validate => Validate.overlay
  | score => Score.overlay

theorem field_mem (part : Section) : part.field ∈ Config.overlay.fields := by
  cases part <;> simp [field, Config.overlay, configFields]

theorem read_field (part : Section) : part.field.read = part.overlay.read? := by
  cases part <;> rfl

theorem get_field (part : Section) : part.field.get {} = part.overlay.defaults := by
  cases part <;> rfl

end Section

/-! ### Paths in the settings -/

/-- The paths among the settings. -/
def paths (config : Config) : List Path :=
  [config.submissionsDirectory, config.outputDirectory, config.build.outputSubdirectory,
    config.score.referencesDirectory] ++ config.validate.referenceArtifact.toList

theorem of_field {α : Type} {read : Json → Option α} {given : Option Json} {default value : α} {P : α → Prop}
    (hdefault : P default) (hread : ∀ document value, read document = some value → P value)
    (h : field read default given = some value) : P value := by
  cases given with
  | none => exact Option.some.inj h ▸ hdefault
  | some document => exact hread document value h

theorem isText_of_path? {document : Json} {path : Path} (h : path? document = some path) : path.text.IsText := by
  obtain ⟨text, -, rfl⟩ := Option.map_eq_some_iff.mp h
  exact RawText.isText_ofText text

theorem isText_of_build? {document : Json} {settings : Build} (h : build? document = some settings) :
    settings.outputSubdirectory.text.IsText := by
  obtain ⟨values, -, h⟩ := Option.bind_eq_some_iff.mp h
  split at h
  · simp only [Option.bind_eq_bind, Option.bind_eq_some_iff, Option.pure_def, Option.some.injEq] at h
    obtain ⟨-, -, -, -, -, -, -, -, output, houtput, -, -, rfl⟩ := h
    exact of_field (P := fun path => path.text.IsText) (by decide) (fun _ _ => isText_of_path?) houtput
  · cases h

theorem isText_of_validate? {document : Json} {settings : Validate} (h : validate? document = some settings) :
    ∀ path ∈ settings.referenceArtifact, path.text.IsText := by
  have hnullable (document : Json) (value : Option Path) (h : nullable? path? document = some value) :
      ∀ path ∈ value, path.text.IsText := by
    unfold nullable? at h
    split at h
    · exact Option.some.inj h ▸ nofun
    · obtain ⟨path, hpath, rfl⟩ := Option.map_eq_some_iff.mp h
      rintro _ ⟨⟩
      exact isText_of_path? hpath
  obtain ⟨values, -, h⟩ := Option.bind_eq_some_iff.mp h
  split at h
  · simp only [Option.bind_eq_bind, Option.bind_eq_some_iff, Option.pure_def, Option.some.injEq] at h
    obtain ⟨reference, hreference, -, -, -, -, -, -, rfl⟩ := h
    exact of_field (P := fun value => ∀ path ∈ value, path.text.IsText) nofun hnullable hreference
  · cases h

theorem isText_of_score? {document : Json} {settings : Score} (h : score? document = some settings) :
    settings.referencesDirectory.text.IsText := by
  obtain ⟨values, -, h⟩ := Option.bind_eq_some_iff.mp h
  split at h
  · simp only [Option.bind_eq_bind, Option.bind_eq_some_iff, Option.pure_def, Option.some.injEq] at h
    obtain ⟨-, -, references, hreferences, -, -, -, -, -, -, rfl⟩ := h
    exact of_field (P := fun path => path.text.IsText) (by decide) (fun _ _ => isText_of_path?) hreferences
  · cases h

theorem isText_of_config? {document : Json} {config : Config} (h : config? document = some config) :
    ∀ path ∈ config.paths, path.text.IsText := by
  obtain ⟨values, -, h⟩ := Option.bind_eq_some_iff.mp h
  split at h
  · simp only [Option.bind_eq_bind, Option.bind_eq_some_iff, Option.pure_def, Option.some.injEq] at h
    obtain ⟨-, -, submissions, hsubmissions, output, houtput, -, -, build, hbuild, validate, hvalidate, score, hscore,
      -, -, rfl⟩ := h
    simp only [paths, List.mem_append, List.mem_cons, List.not_mem_nil, or_false, Option.mem_toList]
    rintro path ((rfl | rfl | rfl | rfl) | hpath)
    · exact of_field (P := fun path => path.text.IsText) (by decide) (fun _ _ => isText_of_path?) hsubmissions
    · exact of_field (P := fun path => path.text.IsText) (by decide) (fun _ _ => isText_of_path?) houtput
    · exact of_field (P := fun settings => settings.outputSubdirectory.text.IsText) (by decide)
        (fun _ _ => isText_of_build?) hbuild
    · exact of_field (P := fun settings => settings.referencesDirectory.text.IsText) (by decide)
        (fun _ _ => isText_of_score?) hscore
    · exact of_field (P := fun settings => ∀ path ∈ settings.referenceArtifact, path.text.IsText) nofun
        (fun _ _ => isText_of_validate?) hvalidate path hpath
  · cases h

/-- The settings are read from a text, so the paths in them are texts. -/
theorem isText_of_load {files : Files} {source : Path} {config : Config} (h : load files source = .ok config) :
    ∀ path ∈ config.paths, path.text.IsText := by
  unfold load at h
  split at h
  · next text _ =>
    unfold ofText at h
    split at h
    · next read hread =>
      obtain ⟨document, -, hconfig⟩ := Option.bind_eq_some_iff.mp hread
      exact Except.ok.inj h ▸ isText_of_config? hconfig
    · cases h
  · cases h

end Config

end Assay
