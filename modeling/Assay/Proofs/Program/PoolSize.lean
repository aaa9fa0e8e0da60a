import Assay.Proofs.Config.Sections
import Assay.Proofs.Json
import Assay.Proofs.Program.Preliminaries

/-!
# How much can be done at a time

Settings may ask for any number of jobs that fits into a machine word, and are not asked again until the pool is
started. There are more such numbers than a pool can have permits, and with one of them the run breaks down after it
has begun. It does so with no other settings.
-/

namespace Assay

variable {ρ : Type} {ι α β γ : Type}

/-! ### Batches that cannot be started -/

/-- The batch broke down, which is more than that it was stopped by a failure. -/
def Batch.Result.Panics (result : Batch.Result ι α γ ρ) : Prop :=
  ∃ panic, result.stop = some (.panicked panic)

namespace Batch

variable {runner : Runner ρ} {collector : Collector ι α γ ρ} {schedule : Schedule} {jobs : Nat}
  {work : List (ι × Task α)} {gathered : γ} {world : World ρ}

/-- What cannot be started is left as it was. -/
theorem run_of_maxPermits_lt (h : Pool.maxPermits < Pool.permits jobs) :
    run runner collector schedule jobs work gathered world =
      ⟨some (.panicked Pool.tooManyPermits), { pool := .empty, gathered, world }⟩ := by
  have hstart : Pool.start jobs work = .error Pool.tooManyPermits := if_pos h
  rw [run, hstart]

/-- A worker that panics does not take the batch with it, so that only its start can. -/
theorem panics_run_iff :
    (run runner collector schedule jobs work gathered world).Panics ↔ Pool.maxPermits < Pool.permits jobs := by
  constructor
  · rintro ⟨panic, hstop⟩
    by_contra hfits
    obtain ⟨_, _, _, failure, -, -, -, hfailed⟩ := trail_of_run_stop_eq_some (Nat.le_of_not_lt hfits) hstop
    cases hfailed
  · intro h
    rw [run_of_maxPermits_lt h]
    exact ⟨_, rfl⟩

end Batch

theorem Scorer.panics_run_iff (scorer : Scorer) (runner : Runner ρ) (schedule : Schedule)
    (references students : List Submission) (world : World ρ) :
    (scorer.run runner schedule references students world).Panics ↔
      Pool.maxPermits < Pool.permits scorer.jobs ∧
        (world.files.ensureDirectory world.files.directory scorer.outputDirectory).1 = .ok () := by
  unfold Scorer.run
  rcases world.files.ensureDirectory world.files.directory scorer.outputDirectory with ⟨fault | made, files⟩
  · constructor
    · rintro ⟨panic, hstop⟩
      cases hstop
    · rintro ⟨-, hmade⟩
      cases hmade
  · rw [Batch.panics_run_iff]
    exact (and_iff_left rfl).symm

/-! ### Settings that ask for too much -/

namespace Config

/-- More is to be done at a time than there can be permits for. -/
def Oversized (config : Config) : Prop :=
  ∃ size, config.jobs = some size ∧ Pool.maxPermits < size

theorem maxPermits_lt_of_oversized {config : Config} (h : config.Oversized) (processors : Nat) :
    Pool.maxPermits < Pool.permits (config.poolSize processors) := by
  obtain ⟨size, hjobs, hsize⟩ := h
  have hpositive : 0 < size := Nat.zero_lt_of_lt hsize
  have hpool : config.poolSize processors = size := by
    simp [poolSize, jobs?, hjobs, Option.filter, hpositive]
  rw [hpool]
  exact Nat.lt_of_lt_of_le hsize (Nat.le_max_left _ _)

theorem maxPermits_lt_iff_oversized (config : Config) {processors : Nat}
    (hprocessors : processors ≤ Pool.maxPermits) :
    Pool.maxPermits < Pool.permits (config.poolSize processors) ↔ config.Oversized := by
  refine ⟨fun h => ?_, fun h => maxPermits_lt_of_oversized h processors⟩
  have hone : 1 ≤ Pool.maxPermits := by decide
  unfold Pool.permits at h
  cases hjobs : config.jobs? with
  | none =>
      rw [poolSize, hjobs, Option.getD_none] at h
      omega
  | some size =>
      rw [poolSize, hjobs, Option.getD_some] at h
      exact ⟨size, (Option.filter_eq_some_iff.mp hjobs).1, by omega⟩

/-! ### Settings that say nothing else -/

def sizedText (size : Nat) : String := "\x7b\"jobs\":" ++ size.repr ++ "\x7d"

theorem toList_sizedText (size : Nat) :
    (sizedText size).toList = '\x7b' :: '"' :: 'j' :: 'o' :: 'b' :: 's' :: '"' :: ':' ::
      (Nat.toDigits 10 size ++ ['\x7d']) := by
  rw [sizedText, String.toList_append, String.toList_append, Nat.toList_repr]
  rfl

theorem ofText?_sizedText (size : Nat) :
    Json.ofText? (sizedText size) = some (.ofMembers [("jobs", .natural size)]) := by
  have hends : Json.Reader.EndsNumber '\x7d' := ⟨by decide, by decide, by decide, by decide⟩
  refine @Json.ofText?_of_value _ _ 3 (by simp [toList_sizedText]) fun fuel => ?_
  rw [toList_sizedText]
  exact Json.Reader.value_object (Json.Reader.members_last rfl (Json.Reader.value_toDigits fuel size hends []))

theorem ofText_sizedText {size : Nat} (h : size < Reader.wordLimit) :
    ofText (sizedText size) = .ok { jobs := some size } := by
  have hjobs : configFields[3] ∈ Config.overlay.fields := List.getElem_mem _
  have hread : Reader.nullable? Reader.natural? (.natural size) = some (some size) := by
    simp [Reader.nullable?, Reader.natural?, h]
  have hempty : Config.overlay.read? (.ofMembers []) = some {} := rfl
  have hconfig : Config.overlay.read? (.ofMembers [("jobs", .natural size)]) = some { jobs := some size } :=
    Overlay.read?_set hempty hjobs (fun name hname => Json.Members.given_cons_of_ne hname _ _) (.spoken rfl hread)
  change Reader.config? _ = _ at hconfig
  rw [ofText, ofText?_sizedText, Option.bind_eq_bind, Option.bind_some, hconfig]

theorem lt_wordLimit_of_natural? {document : Json} {value : Nat} (h : Reader.natural? document = some value) :
    value < Reader.wordLimit := by
  cases document with
  | natural given =>
      rw [Reader.natural?, Option.ite_none_right_eq_some] at h
      obtain ⟨hlt, hvalue⟩ := h
      exact Option.some.inj hvalue ▸ hlt
  | _ => cases h

theorem lt_wordLimit_of_config? {document : Json} {config : Config} {size : Nat}
    (hread : Reader.config? document = some config) (hjobs : config.jobs = some size) :
    size < Reader.wordLimit := by
  obtain ⟨values, -, hvalues⟩ := Option.bind_eq_some_iff.mp hread
  split at hvalues
  · next _ _ _ jobs _ _ _ _ =>
      simp only [Option.bind_eq_bind, Option.bind_eq_some_iff, Option.pure_def, Option.some.injEq] at hvalues
      obtain ⟨_, -, _, -, _, -, found, hfound, _, -, _, -, _, -, _, -, rfl⟩ := hvalues
      obtain rfl : found = some size := hjobs
      cases jobs with
      | none => cases hfound
      | some document =>
          cases document with
          | null => cases hfound
          | natural value =>
              obtain ⟨given, hgiven, hsize⟩ := Option.map_eq_some_iff.mp hfound
              exact Option.some.inj hsize ▸ lt_wordLimit_of_natural? hgiven
          | _ => cases hfound
  · cases hvalues

/-- Settings can ask for every size that fits into a machine word, and for no other. -/
theorem exists_jobs_iff {size : Nat} :
    (∃ source config, ofText source = .ok config ∧ config.jobs = some size) ↔ size < Reader.wordLimit := by
  constructor
  · rintro ⟨source, config, hload, hjobs⟩
    unfold ofText at hload
    split at hload
    · next read hread =>
        cases hload
        obtain ⟨document, -, hconfig⟩ := Option.bind_eq_some_iff.mp hread
        exact lt_wordLimit_of_config? hconfig hjobs
    · cases hload
  · exact fun h => ⟨sizedText size, _, ofText_sizedText h, rfl⟩

/-- Whoever takes the pool size of the settings breaks down exactly if they ask for more than there can be permits
for; a scorer has made its directory by then. Settings can ask for any number of the width of a machine word. -/
theorem panics_iff_oversized {processors : Nat} (hprocessors : processors ≤ Pool.maxPermits) (runner : Runner ρ)
    (schedule : Schedule) (world : World ρ) :
    (∀ (config : Config) (pipeline : Pipeline) (reporter : Reporter ρ) (submissions : List Submission),
      (Dispatcher.run ⟨pipeline, config.poolSize processors⟩ runner reporter schedule submissions world).Panics ↔
        config.Oversized) ∧
    (∀ (config : Config) (rule : AnalyzerRule) (outputDirectory : Path)
        (breakdown : Submission → Panic → String) (references students : List Submission),
      (Scorer.run ⟨rule, outputDirectory, config.poolSize processors, breakdown⟩ runner schedule references
          students world).Panics ↔
        config.Oversized ∧ (world.files.ensureDirectory world.files.directory outputDirectory).1 = .ok ()) ∧
    ∀ size, (∃ source config, ofText source = .ok config ∧ config.jobs = some size) ↔ size < Reader.wordLimit := by
  refine ⟨fun config pipeline reporter submissions => ?_,
    fun config rule outputDirectory breakdown references students => ?_, fun size => exists_jobs_iff⟩
  · rw [Dispatcher.run, Batch.panics_run_iff, maxPermits_lt_iff_oversized config hprocessors]
  · rw [Scorer.panics_run_iff, maxPermits_lt_iff_oversized config hprocessors]

def plainPipeline : Pipeline :=
  { recipe :=
      { clean := ⟨"make", ["clean"]⟩
        build := ⟨"make", ["bin/main"]⟩
        run := ⟨"./main", []⟩
        outputSubdirectory := ⟨"bin"⟩
        runLimit := .ofSeconds 300 }
    artifactSuffix := ".png"
    comparator := { program := "diff", reference := ⟨"/reference"⟩, limit := .ofSeconds 30 } }

/-- One submission on eight processors, with commands that all succeed. -/
def plainRun (size : Nat) : Dispatcher.Result Nat :=
  Dispatcher.run ⟨plainPipeline, poolSize { jobs := some size } 8⟩
    (fun _ files calls => (.ok (.exited 0), files, calls + 1)) (fun _ _ world => (.ok (), world)) .prompt
    [.ofRoot "one" ⟨"/submissions/one"⟩] (.start (Files.bare ["submissions", "one"]) 0)

/-- One job more or less makes the difference. -/
theorem panics_iff_oversized_border :
    8 ≤ Pool.maxPermits ∧ ¬ (plainRun 2305843009213693951).Panics ∧ (plainRun 2305843009213693952).Panics := by
  have hprocessors : 8 ≤ Pool.maxPermits := by decide
  have hrun (size : Nat) : (plainRun size).Panics ↔ Oversized { jobs := some size } :=
    (panics_iff_oversized hprocessors _ _ _).1 _ _ _ _
  refine ⟨hprocessors, fun hpanics => ?_, (hrun _).mpr ⟨_, rfl, by decide⟩⟩
  obtain ⟨size, hjobs, hsize⟩ := (hrun _).mp hpanics
  cases hjobs
  exact absurd hsize (by decide)

/-- These settings can be loaded, and there is no batch that they could be used for. -/
theorem panics_of_oversizedText :
    ∃ config, ofText "\x7b\"jobs\":2305843009213693952\x7d" = .ok config ∧
      ∀ (processors : Nat) (pipeline : Pipeline) (runner : Runner Unit) (reporter : Reporter Unit)
        (schedule : Schedule) (submissions : List Submission) (world : World Unit),
        (Dispatcher.run ⟨pipeline, config.poolSize processors⟩ runner reporter schedule submissions world).stop =
          some (.panicked Pool.tooManyPermits) := by
  have htext : "\x7b\"jobs\":2305843009213693952\x7d" = sizedText 2305843009213693952 := by decide
  rw [htext]
  refine ⟨_, ofText_sizedText (by decide), fun processors pipeline runner reporter schedule submissions world => ?_⟩
  have hpermits : Pool.maxPermits < Pool.permits (poolSize { jobs := some 2305843009213693952 } processors) :=
    maxPermits_lt_of_oversized ⟨_, rfl, by decide⟩ processors
  rw [Dispatcher.run, Batch.run_of_maxPermits_lt hpermits]

end Config

/-! ### Whole runs that break down -/

namespace Program

/-- Whatever the world is, the run ends with the step. -/
def Fruitless (step : Step ρ α) : Prop :=
  ∀ world value, (outcome step world).1 ≠ .ok value

theorem fruitless_bind {step : Step ρ α} {next : α → Step ρ β} (h : ∀ value, Fruitless (next value)) :
    Fruitless (step >>= next) := by
  intro world value hvalue
  rw [outcome_bind] at hvalue
  rcases hstep : outcome step world with ⟨exit | found, after⟩
  · rw [hstep] at hvalue
    cases hvalue
  · rw [hstep] at hvalue
    exact h found after value hvalue

theorem Fruitless.bind {step : Step ρ α} (h : Fruitless step) (next : α → Step ρ β) :
    Fruitless (step >>= next) := by
  intro world value hvalue
  rw [outcome_bind] at hvalue
  rcases hstep : outcome step world with ⟨exit | found, after⟩
  · rw [hstep] at hvalue
    cases hvalue
  · exact h world found (congrArg Prod.fst hstep)

theorem fruitless_gather {operation : World ρ → Batch.Result ι α γ ρ}
    (h : ∀ world, (operation world).stop ≠ none) : Fruitless (gather operation) := by
  intro world result hresult
  rw [outcome_gather] at hresult
  split at hresult
  · next hstop => exact h world hstop
  · cases hresult
  · cases hresult

/-- What loaded settings ask for. -/
def act (program : Program ρ) (config : Config) : Step ρ Unit :=
  match config.mode with
  | .execute => program.execute config
  | .score => program.score config

theorem outcome_body (program : Program ρ) (settings : Path) (world : World ρ) :
    outcome (program.body settings) world =
      match Config.load world.files settings with
      | .ok config => outcome (program.act config) world
      | .error failure => (.error (.failed failure), world) := by
  have hbody : outcome (program.body settings) world =
    outcome (require (Config.load world.files settings) >>= program.act) world := rfl
  rw [hbody, outcome_bind, outcome_require]
  rcases Config.load world.files settings with failure | config <;> rfl

variable {program : Program ρ} {config : Config}

theorem fruitless_execute (h : config.Oversized) : Fruitless (program.execute config) := by
  refine fruitless_bind fun submissions => fruitless_bind fun world => fruitless_bind fun comparator => ?_
  refine fruitless_bind fun _ => fruitless_bind fun recipe => fruitless_bind fun log => fruitless_bind fun _ => ?_
  refine (fruitless_gather fun world hnone => ?_).bind _
  rw [Dispatcher.run, Batch.run_of_maxPermits_lt (Config.maxPermits_lt_of_oversized h program.processors)] at hnone
  cases hnone

theorem fruitless_score (h : config.Oversized) : Fruitless (program.score config) := by
  refine fruitless_bind fun rule => fruitless_bind fun references => fruitless_bind fun students => ?_
  refine (fruitless_gather fun world hnone => ?_).bind _
  unfold Scorer.run at hnone
  split at hnone
  · cases hnone
  · rw [Batch.run_of_maxPermits_lt (Config.maxPermits_lt_of_oversized h program.processors)] at hnone
    cases hnone

theorem fruitless_act (h : config.Oversized) : Fruitless (program.act config) := by
  unfold act
  split
  · exact fruitless_execute h
  · exact fruitless_score h

section Avoids

variable {bad : Exit → Prop} (hfailed : ∀ failure, ¬ bad (.failed failure))
  (hpanicked : Pool.maxPermits < Pool.permits (config.poolSize program.processors) → ∀ panic, ¬ bad (.panicked panic))

include hfailed hpanicked

theorem avoids_execute : Avoids bad (program.execute config) := by
  refine avoids_bind (avoids_attempt fun _ failure _ => hfailed failure) fun submissions => ?_
  refine avoids_bind avoids_get fun world => ?_
  refine avoids_bind (avoids_require fun failure _ => hfailed failure) fun comparator => ?_
  refine avoids_bind (avoids_say _ _) fun _ => ?_
  refine avoids_bind (avoids_require fun failure _ => hfailed failure) fun recipe => ?_
  refine avoids_bind (avoids_attempt fun _ failure _ => hfailed failure) fun log => ?_
  refine avoids_bind (avoids_say _ _) fun _ => ?_
  refine avoids_bind (avoids_gather (fun _ failure _ => hfailed failure) fun world panic hstop => ?_) fun result => ?_
  · exact hpanicked (Batch.panics_run_iff.mp ⟨panic, hstop⟩) panic
  · exact avoids_summarize (fun _ failure _ => hfailed failure) config _

theorem avoids_score : Avoids bad (program.score config) := by
  refine avoids_bind (avoids_require fun failure _ => hfailed failure) fun rule => ?_
  refine avoids_bind (avoids_attempt fun _ failure _ => hfailed failure) fun references => ?_
  refine avoids_bind (avoids_attempt fun _ failure _ => hfailed failure) fun students => ?_
  refine avoids_bind (avoids_gather (fun _ failure _ => hfailed failure) fun world panic hstop => ?_) fun result =>
    avoids_say_forIn
  exact hpanicked ((Scorer.panics_run_iff _ _ _ _ _ _).mp ⟨panic, hstop⟩).1 panic

theorem avoids_act : Avoids bad (program.act config) := by
  unfold act
  split
  · exact avoids_execute hfailed hpanicked
  · exact avoids_score hfailed hpanicked

end Avoids

/-- A run breaks down over nothing but the number of jobs. -/
theorem oversized_of_run_eq_panicked (hprocessors : program.processors ≤ Pool.maxPermits) {settings : Path}
    {world after : World ρ} {panic : Panic} (hrun : program.run settings world = (.panicked panic, after)) :
    ∃ config, Config.load world.files settings = .ok config ∧ config.Oversized := by
  have hfiles : (program.hooked world).files = world.files := rfl
  rw [run_eq_iff program (by simp), outcome_body, hfiles] at hrun
  cases hload : Config.load world.files settings with
  | error failure =>
      rw [hload] at hrun
      cases hrun
  | ok config =>
      refine ⟨config, rfl, ?_⟩
      by_contra hfits
      have havoids : Avoids (· = .panicked panic) (program.act config) :=
        avoids_act (by simp) fun hpermits => absurd ((config.maxPermits_lt_iff_oversized hprocessors).mp hpermits) hfits
      rw [hload] at hrun
      exact havoids (program.hooked world) _ rfl (congrArg Prod.fst hrun)

/-- With too many jobs, no run is completed. -/
theorem run_ne_completed_of_oversized {settings : Path} {world : World ρ}
    (hload : Config.load world.files settings = .ok config) (h : config.Oversized) :
    (program.run settings world).1 ≠ .completed := by
  intro hrun
  have hfiles : (program.hooked world).files = world.files := rfl
  have houtcome : outcome (program.body settings) (program.hooked world) =
      outcome (program.act config) (program.hooked world) := by
    rw [outcome_body, hfiles, hload]
  have havoids : Avoids (· = .completed) (program.act config) := avoids_act (by simp) (by simp)
  rcases hact : outcome (program.act config) (program.hooked world) with ⟨exit | value, after⟩
  · have hexit : exit ≠ .completed := fun hcompleted =>
      havoids (program.hooked world) exit hcompleted (congrArg Prod.fst hact)
    rw [(run_eq_iff program hexit).mpr (houtcome.trans hact)] at hrun
    exact hexit hrun
  · exact fruitless_act h (program.hooked world) value (congrArg Prod.fst hact)

end Program

end Assay
