import Assay.Proofs.Batch.Beside
import Assay.Proofs.Program.Failures

/-!
# Refused before anything is done

A run that is refused for its settings, or because nobody can be found to take part in it, has only looked around.
That no command was run is said by comparing two runs with different runners: both are refused in the same way,
and neither runner has anything to remember of it. A runner that counts its calls would have counted none.
-/

namespace Assay

variable {ρ σ : Type} {α β : Type}

/-- Runs commands in the same way, and keeps all calls. -/
def Runner.recorded (runner : Runner ρ) : Runner (ρ × List Call) := fun call files (memory, calls) =>
  let (ending, files, memory) := runner call files memory
  (ending, files, memory, calls ++ [call])

namespace Program

def recorded (program : Program ρ) : Program (ρ × List Call) :=
  { runner := program.runner.recorded
    schedule := program.schedule
    processors := program.processors
    locate := program.locate
    breakdown := program.breakdown }

/-- What a step comes to, and the world it leaves. -/
def outcome (step : Step ρ α) (world : World ρ) : Except Exit α × World ρ := step.run world

theorem outcome_bind (step : Step ρ α) (next : α → Step ρ β) (world : World ρ) :
    outcome (step >>= next) world =
      match outcome step world with
      | (.ok value, after) => outcome (next value) after
      | (.error exit, after) => (.error exit, after) := by
  have hcont : outcome (step >>= next) world =
    ExceptT.bindCont next (outcome step world).1 (outcome step world).2 := rfl
  rw [hcont]
  rcases outcome step world with ⟨exit | value, after⟩ <;> rfl

theorem outcome_require (result : Except Failure α) (world : World ρ) :
    outcome (require result) world = (result.mapError Exit.failed, world) := by
  cases result <;> rfl

theorem outcome_attempt (operation : World ρ → Except Failure α × World ρ) (world : World ρ) :
    outcome (attempt operation) world =
      ((operation world).1.mapError Exit.failed, (operation world).2) :=
  outcome_require (operation world).1 (operation world).2

theorem outcome_gather {ι γ : Type} (operation : World ρ → Batch.Result ι α γ ρ) (world : World ρ) :
    (outcome (gather operation) world).1 =
      match (operation world).stop with
      | none => .ok (operation world)
      | some (.failed failure) => .error (.failed failure)
      | some (.panicked panic) => .error (.panicked panic) := by
  have hgather : outcome (gather operation) world =
    outcome (match (operation world).stop with
      | none => pure (operation world)
      | some (.failed failure) => throw (.failed failure)
      | some (.panicked panic) => do
        modify fun world => world.noteAll (world.hook panic)
        throw (.panicked panic) : Step ρ (Batch.Result ι α γ ρ))
      (operation world).batch.world := rfl
  rw [hgather]
  rcases (operation world).stop with _ | failure | panic <;> rfl

/-! ### Steps that only look around -/

/-- Done in this world, the step leaves the files and the memory of the runner alone, and the other one, which has
another runner with this memory, comes to the same. -/
structure Spares (left : Step ρ α) (right : Step σ α) (world : World ρ) (other : σ) : Prop where
  files : (outcome left world).2.files = world.files
  memory : (outcome left world).2.memory = world.memory
  same : outcome right (world.withMemory other) =
    ((outcome left world).1, (outcome left world).2.withMemory other)

theorem spares_require (result : Except Failure α) (world : World ρ) (other : σ) :
    Spares (require result) (require result) world other where
  files := by rw [outcome_require]
  memory := by rw [outcome_require]
  same := by rw [outcome_require, outcome_require]

theorem spares_say (level : Level) (message : String) (world : World ρ) (other : σ) :
    Spares (say level message) (say level message) world other :=
  ⟨rfl, rfl, rfl⟩

theorem spares_attempt {left : World ρ → Except Failure α × World ρ}
    {right : World σ → Except Failure α × World σ} {world : World ρ} {other : σ}
    (hfiles : (left world).2.files = world.files)
    (hmemory : (left world).2.memory = world.memory)
    (hsame : right (world.withMemory other) = ((left world).1, (left world).2.withMemory other)) :
    Spares (attempt left) (attempt right) world other where
  files := by rw [outcome_attempt, hfiles]
  memory := by rw [outcome_attempt, hmemory]
  same := by rw [outcome_attempt, outcome_attempt, hsame]

theorem spares_discover (directory : Path) (world : World ρ) (other : σ) :
    Spares (attempt (Roster.discover directory)) (attempt (Roster.discover directory)) world other := by
  have hworld : (world.withMemory other).files = world.files := rfl
  cases hfound : Roster.opened world.files directory with
  | error fault => apply spares_attempt <;> simp only [Roster.discover, hworld, hfound]
  | ok location => apply spares_attempt <;> simp only [Roster.discover, hworld, hfound] <;> rfl

/-! ### Steps that a failure leaves nothing of -/

/-- The run is refused for its settings, or because nobody can be found to take part in it. -/
def Premature (result : Except Exit α) : Prop :=
  ∃ failure : Failure, failure.isPreliminary = true ∧ result = .error (.failed failure)

/-- If the step ends the run prematurely, it has only looked around. -/
def Cautious (left : Step ρ α) (right : Step σ α) (world : World ρ) (other : σ) : Prop :=
  Premature (outcome left world).1 → Spares left right world other

theorem Spares.cautious {left : Step ρ α} {right : Step σ α} {world : World ρ} {other : σ}
    (h : Spares left right world other) : Cautious left right world other :=
  fun _ => h

theorem cautious_get {left : World ρ → Step ρ α} {right : World σ → Step σ α} {world : World ρ}
    {other : σ}
    (h : Cautious (left world) (right (world.withMemory other)) world other) :
    Cautious (get >>= left) (get >>= right) world other :=
  fun hpremature => ⟨(h hpremature).files, (h hpremature).memory, (h hpremature).same⟩

theorem cautious_bind {left : Step ρ α} {right : Step σ α} {next : α → Step ρ β} {next' : α → Step σ β}
    {world : World ρ} {other : σ} (h : Spares left right world other)
    (hnext : ∀ value after, Cautious (next value) (next' value) after other) :
    Cautious (left >>= next) (right >>= next') world other := by
  intro hpremature
  have hsame := h.same
  rcases hleft : outcome left world with ⟨exit | value, after⟩
  all_goals
    have hfiles := h.files
    have hmemory := h.memory
    simp only [hleft] at hsame hfiles hmemory
  · constructor <;> simp only [outcome_bind, hleft, hsame, hfiles, hmemory]
  · rw [outcome_bind, hleft] at hpremature
    have hrest := hnext value after hpremature
    constructor <;> simp only [outcome_bind, hleft, hsame]
    · rw [hrest.files, hfiles]
    · rw [hrest.memory, hmemory]
    · exact hrest.same

/-! ### Steps that do not end the run in certain ways -/

/-- Whatever the world is, the step does not end the run in such a way. -/
def Avoids (bad : Exit → Prop) (step : Step ρ α) : Prop :=
  ∀ world exit, bad exit → (outcome step world).1 ≠ .error exit

section Avoids

variable {bad : Exit → Prop}

theorem avoids_of_eq_ok {step : Step ρ α} (h : ∀ world, ∃ value, (outcome step world).1 = .ok value) :
    Avoids bad step := by
  intro world exit _ hexit
  obtain ⟨value, hvalue⟩ := h world
  exact nomatch hvalue.symm.trans hexit

theorem avoids_pure (value : α) : Avoids bad (pure value : Step ρ α) :=
  avoids_of_eq_ok fun _ => ⟨value, rfl⟩

theorem avoids_get : Avoids bad (get : Step ρ (World ρ)) :=
  avoids_of_eq_ok fun world => ⟨world, rfl⟩

theorem avoids_say (level : Level) (message : String) : Avoids bad (say level message : Step ρ Unit) :=
  avoids_of_eq_ok fun _ => ⟨(), rfl⟩

theorem avoids_bind {step : Step ρ α} {next : α → Step ρ β} (h : Avoids bad step)
    (hnext : ∀ value, Avoids bad (next value)) : Avoids bad (step >>= next) := by
  intro world exit hbad hexit
  rw [outcome_bind] at hexit
  rcases hstep : outcome step world with ⟨other | value, after⟩
  · rw [hstep] at hexit
    cases hexit
    exact h world exit hbad (congrArg Prod.fst hstep)
  · rw [hstep] at hexit
    exact hnext value after exit hbad hexit

theorem avoids_require {result : Except Failure α}
    (h : ∀ failure, result = .error failure → ¬ bad (.failed failure)) :
    Avoids bad (require result : Step ρ α) := by
  intro world exit hbad hexit
  rw [outcome_require] at hexit
  cases result with
  | error failure =>
      cases hexit
      exact h failure rfl hbad
  | ok value => cases hexit

theorem avoids_attempt {operation : World ρ → Except Failure α × World ρ}
    (h : ∀ world failure, (operation world).1 = .error failure → ¬ bad (.failed failure)) :
    Avoids bad (attempt operation) :=
  fun world => avoids_require (h world) (operation world).2

theorem avoids_gather {ι γ : Type} {operation : World ρ → Batch.Result ι α γ ρ}
    (hfailed : ∀ world failure, (operation world).stop = some (.failed failure) → ¬ bad (.failed failure))
    (hpanicked : ∀ world panic, (operation world).stop = some (.panicked panic) → ¬ bad (.panicked panic)) :
    Avoids bad (gather operation) := by
  intro world exit hbad hexit
  rw [outcome_gather] at hexit
  split at hexit
  · cases hexit
  · next failure hstop =>
      cases hexit
      exact hfailed world failure hstop hbad
  · next panic hstop =>
      cases hexit
      exact hpanicked world panic hstop hbad

theorem avoids_forIn {items : List α} {act : α → β → Step ρ (ForInStep β)} {first : β}
    (h : ∀ item value, Avoids bad (act item value)) : Avoids bad (forIn items first act) := by
  induction items generalizing first with
  | nil => exact avoids_pure first
  | cons item items ih =>
      rw [List.forIn_cons]
      refine avoids_bind (h item first) fun step => ?_
      cases step with
      | done value => exact avoids_pure value
      | yield value => exact ih

theorem avoids_summarize {log : ExecuteLog}
    (h : ∀ (world : World ρ) failure, (ExecuteLog.verdicts log.path world).1 = .error failure →
      ¬ bad (.failed failure)) (config : Config) (results : ResultSet) :
    Avoids bad (summarize config log results : Step ρ Unit) := by
  unfold summarize
  split
  · exact avoids_say _ _
  · refine avoids_bind (avoids_forIn fun verdict _ => ?_) fun _ => ?_
    · exact avoids_bind (avoids_say _ _) fun _ => avoids_pure _
    · refine avoids_bind (avoids_say _ _) fun _ => ?_
      exact avoids_bind (avoids_attempt h) fun _ => avoids_say _ _

/-- What is said of the reports in the end. -/
theorem avoids_say_forIn {items : List α} {text : α → String} :
    Avoids bad (do for item in items do say .info (text item) : Step ρ Unit) := by
  refine avoids_bind (avoids_forIn fun item _ => ?_) fun _ => avoids_pure _
  exact avoids_bind (avoids_say _ _) fun _ => avoids_pure _

end Avoids

/-! ### Steps of the work -/

/-- Whatever the world is, the step does not end the run prematurely. -/
def EndsLate (step : Step ρ α) : Prop :=
  ∀ world, ¬ Premature (outcome step world).1

theorem EndsLate.cautious {left : Step ρ α} (h : EndsLate left) (right : Step σ α) (world : World ρ)
    (other : σ) : Cautious left right world other :=
  fun hpremature => absurd hpremature (h world)

/-- The end of a run that is premature. -/
def IsRefusal (exit : Exit) : Prop := Premature (.error exit : Except Exit Unit)

theorem not_isRefusal_of_late {failure : Failure} (h : failure.isPreliminary = false) :
    ¬ IsRefusal (.failed failure) := by
  rintro ⟨other, hother, heq⟩
  cases heq
  rw [h] at hother
  cases hother

theorem endsLate_of_avoids {step : Step ρ α} (h : Avoids IsRefusal step) : EndsLate step := by
  rintro world ⟨failure, hfailure, hexit⟩
  exact h world _ ⟨failure, hfailure, rfl⟩ hexit

theorem avoids_attempt_of_late {operation : World ρ → Except Failure α × World ρ}
    (h : ∀ world, Late (operation world).1) : Avoids IsRefusal (attempt operation) :=
  avoids_attempt fun world failure hfailure => not_isRefusal_of_late (h world failure hfailure)

theorem avoids_gather_of_stopsLate {ι γ : Type} {operation : World ρ → Batch.Result ι α γ ρ}
    (h : ∀ world, (operation world).StopsLate) : Avoids IsRefusal (gather operation) :=
  avoids_gather (fun world failure hstop => not_isRefusal_of_late (h world failure hstop))
    fun _ _ _ ⟨_, _, hpanic⟩ => nomatch hpanic

/-! ### The whole run -/

variable (program : Program ρ) (other : Program σ)

theorem cautious_execute (config : Config) (world : World ρ) (memory : σ) :
    Cautious (program.execute config) (other.execute config) world memory := by
  refine cautious_bind (spares_discover _ world memory) fun submissions world => ?_
  refine cautious_get ?_
  refine cautious_bind (spares_require _ world memory) fun comparator world => ?_
  refine cautious_bind (spares_say _ _ world memory) fun _ world => ?_
  refine cautious_bind (spares_require _ world memory) fun recipe world => ?_
  -- From here on there are effects, and no more failures to be premature.
  refine (endsLate_of_avoids ?_).cautious _ world memory
  refine avoids_bind (avoids_attempt_of_late fun world => ExecuteLog.late_attach _ _ world) fun log => ?_
  refine avoids_bind (avoids_say _ _) fun _ => ?_
  refine avoids_bind (avoids_gather_of_stopsLate fun world => Dispatcher.stopsLate_run _ _ log _ _ world)
    fun result => ?_
  exact avoids_summarize (fun world failure h => not_isRefusal_of_late (ExecuteLog.late_verdicts _ world failure h))
    config _

theorem cautious_score (config : Config) (world : World ρ) (memory : σ) :
    Cautious (program.score config) (other.score config) world memory := by
  refine cautious_bind (spares_require _ world memory) fun rule world => ?_
  refine cautious_bind (spares_discover _ world memory) fun references world => ?_
  refine cautious_bind (spares_discover _ world memory) fun students world => ?_
  refine (endsLate_of_avoids ?_).cautious _ world memory
  refine avoids_bind (avoids_gather_of_stopsLate fun world => Scorer.stopsLate_run _ _ _ _ _ world) fun result => ?_
  exact avoids_say_forIn

theorem cautious_body (settings : Path) (world : World ρ) (memory : σ) :
    Cautious (program.body settings) (other.body settings) world memory := by
  refine cautious_get ?_
  refine cautious_bind (spares_require _ world memory) fun config world => ?_
  split
  · exact cautious_execute program other config world memory
  · exact cautious_score program other config world memory

/-- The world in which the body of a run starts. -/
def hooked (world : World ρ) : World ρ := { world with hook := program.announce }

theorem run_eq_iff {settings : Path} {world after : World ρ} {exit : Exit} (hexit : exit ≠ .completed) :
    program.run settings world = (exit, after) ↔
      outcome (program.body settings) (program.hooked world) = (.error exit, after) := by
  have hrun : program.run settings world =
    match outcome (program.body settings) (program.hooked world) with
    | (.ok (), world) => (.completed, world)
    | (.error exit, world) => (exit, world) := rfl
  rw [hrun]
  rcases outcome (program.body settings) (program.hooked world) with ⟨other | value, last⟩
  · simp only [Prod.mk.injEq, Except.error.injEq]
  · simp only [Prod.mk.injEq, reduceCtorEq, false_and, hexit.symm]

/-- A run that is refused leaves the files as they were, and its runner too, and every other runner would have seen it
refused in the same way. -/
theorem refused_alike {settings : Path} {world after : World ρ} {failure : Failure}
    (hrun : program.run settings world = (.failed failure, after)) (hfailure : failure.isPreliminary = true)
    (hlocate : other.locate = program.locate) (memory : σ) :
    after.files = world.files ∧ after.memory = world.memory ∧
      other.run settings (world.withMemory memory) = (.failed failure, after.withMemory memory) := by
  have houtcome := (run_eq_iff program (by simp)).mp hrun
  obtain ⟨hfiles, hmemory, hsame⟩ := cautious_body program other settings (program.hooked world) memory
    ⟨failure, hfailure, congrArg Prod.fst houtcome⟩
  simp only [houtcome] at hfiles hmemory hsame
  have hhook : other.announce = program.announce := by
    funext panic
    rw [announce, announce, hlocate]
  have hworld : other.hooked (world.withMemory memory) = (program.hooked world).withMemory memory := by
    rw [hooked, hhook]
    rfl
  exact ⟨hfiles, hmemory, (run_eq_iff other (by simp)).mpr (hworld ▸ hsame)⟩

/-- A run that is refused for its settings, or because submissions cannot be found, has changed no file, and no
command was given to its runner: with the calls kept, none is added to those there were. -/
theorem refused_untouched {settings : Path} {world after : World ρ} {failure : Failure}
    (hrun : program.run settings world = (.failed failure, after)) (hfailure : failure.isPreliminary = true) :
    after.files = world.files ∧ after.memory = world.memory ∧
      ∀ calls : List Call, program.recorded.run settings (world.withMemory (world.memory, calls)) =
        (.failed failure, after.withMemory (world.memory, calls)) := by
  have halike := refused_alike program program hrun hfailure rfl world.memory
  refine ⟨halike.1, halike.2.1, fun calls => ?_⟩
  exact (refused_alike program program.recorded hrun hfailure rfl (world.memory, calls)).2.2

def emptyClean : String :=
  "\x7b\"submissions_dir\":\"/submissions\",\"build\":\x7b\"clean\":[]\x7d," ++
    "\"validate\":\x7b\"reference_artifact\":\"/reference\"\x7d\x7d"

def emptyCleanFiles : Files :=
  { Files.bare ["submissions", "one"] with
    nodes := (Files.bare ["submissions", "one"]).nodes.put ["settings"] (.file ⟨0⟩ (.ofText emptyClean) false)
    nextFile := 1 }

def counting : Program Nat :=
  { runner := fun _ files calls => (.ok (.exited 0), files, calls + 1)
    schedule := fun tick _ => tick
    processors := 4
    locate := fun _ => "main.rs:1:1"
    breakdown := fun _ panic => panic.message }

/-- There is a submission and a reference, but no command that cleans. -/
theorem refused_untouched_noCommand :
    ∃ after : World Nat,
      counting.run ⟨"/settings"⟩ (.start emptyCleanFiles 0) = (.failed (.config "build.clean is empty"), after) ∧
      after.files = emptyCleanFiles ∧ after.memory = 0 ∧
      counting.recorded.run ⟨"/settings"⟩ (.start emptyCleanFiles (0, [])) =
        (.failed (.config "build.clean is empty"), after.withMemory (0, [])) := by
  have hexit : (counting.run ⟨"/settings"⟩ (.start emptyCleanFiles 0)).1 =
      .failed (.config "build.clean is empty") := by decide +kernel
  have hstart : (World.start emptyCleanFiles 0).withMemory (0, ([] : List Call)) =
      .start emptyCleanFiles (0, []) := rfl
  rcases hrun : counting.run ⟨"/settings"⟩ (.start emptyCleanFiles 0) with ⟨exit, after⟩
  rw [hrun] at hexit
  cases hexit
  obtain ⟨hfiles, hmemory, hrecorded⟩ := refused_untouched counting hrun rfl
  refine ⟨after, rfl, hfiles, hmemory, ?_⟩
  rw [← hstart]
  exact hrecorded []

end Program

end Assay
