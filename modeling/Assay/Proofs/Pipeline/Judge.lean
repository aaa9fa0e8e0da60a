import Assay.Proofs.Pipeline.Blame
import Assay.Proofs.Roster

/-!
# Who judges a submission

The program that compares artifacts is named in the settings, and runs where the submission has run. A name with
several components is looked up from there. So whoever is judged can bring the judge, unless the name leads from
there to a place that belongs to nobody.
-/

namespace Assay

/-- What is started for a call: the file at some location, or whatever the system finds under a name. -/
inductive Started
  | searched (program : Path)
  | file (location : Location)
deriving DecidableEq, Repr

/-- The system looks for a program of this name. -/
def Path.isBare (program : Path) : Bool := !program.isAbsolute && program.components.length ≤ 1

def Call.started (call : Call) (base : Location) : Started :=
  if call.programPath.isBare then .searched call.programPath else .file (call.programPath.resolve base)

theorem Call.programPath_of_bare (call : Call)
    (h : (⟨call.command.program⟩ : Path).isBare = true) :
    call.programPath = ⟨call.command.program⟩ := by
  obtain ⟨-, hshort⟩ := Bool.and_eq_true_iff.mp h
  have hlong : ¬ 1 < (⟨call.command.program⟩ : Path).components.length :=
    Nat.not_lt.mpr (of_decide_eq_true hshort)
  exact if_neg fun hboth => hlong hboth.2

theorem Call.started_of_bare (call : Call) (h : (⟨call.command.program⟩ : Path).isBare = true)
    (base : Location) : call.started base = .searched ⟨call.command.program⟩ := by
  rw [started, call.programPath_of_bare h, if_pos h]

theorem Call.programPath_of_not_bare (call : Call)
    (h : (⟨call.command.program⟩ : Path).isBare = false) :
    call.programPath = call.directory.join ⟨call.command.program⟩ := by
  cases habsolute : (⟨call.command.program⟩ : Path).isAbsolute with
  | false =>
      have hlong : 1 < (⟨call.command.program⟩ : Path).components.length := by
        simpa [Path.isBare, habsolute] using h
      exact if_pos ⟨by rw [habsolute]; rfl, hlong⟩
  | true =>
      rw [Call.programPath, Path.join, if_pos habsolute, if_neg]
      rw [habsolute]
      exact fun hboth => Bool.false_ne_true hboth.1

/-- From an absolute directory a name of several components leads to a file. -/
theorem Call.started_of_not_bare (call : Call)
    (h : (⟨call.command.program⟩ : Path).isBare = false)
    (hdirectory : call.directory.isAbsolute = true) (base : Location) :
    call.started base = .file ((call.directory.join ⟨call.command.program⟩).resolve base) := by
  have hpath := call.programPath_of_not_bare h
  have hbare : call.programPath.isBare = false := by
    rw [hpath, Path.isBare, Path.isAbsolute_join_of_isAbsolute hdirectory]
    rfl
  rw [started, hbare, hpath, if_neg Bool.false_ne_true]

theorem Config.program_of_comparator {config : Config} {base : Location} {comparator : Comparator}
    (h : config.comparator base = .ok comparator) : comparator.program = config.validate.compareProgram := by
  unfold Config.comparator at h
  split at h
  · cases h
  · split at h
    · cases h
    · cases h
      rfl

/-- The way from the root of a submission to the program that judges it. -/
def Config.judgeWay (config : Config) : Path :=
  config.build.outputSubdirectory.join ⟨config.validate.compareProgram⟩

namespace Pipeline

/-- The call is the comparison for this submission. -/
def Compares (pipeline : Pipeline) (submission : Submission) (call : Call) : Prop :=
  ∃ artifact, call = pipeline.comparator.call artifact (pipeline.recipe.outputDirectory submission)

/-- Two submissions have the same judge, and it is none that one of them has brought. -/
structure Impartial (pipeline : Pipeline) (base : Location) (submission other : Submission) : Prop where
  same : ∀ call call', pipeline.Compares submission call → pipeline.Compares other call' →
    call.started base = call'.started base
  outside : ∀ call location, pipeline.Compares submission call → call.started base = .file location →
    ¬ submission.root.resolve base <+: location ∧ ¬ other.root.resolve base <+: location

variable {ρ : Type} {pipeline : Pipeline} {config : Config} {base : Location} {submission other : Submission}

/-- Nothing but the comparison is called for in the fourth place. -/
theorem compares_of_issue {runner : Runner ρ} {world : World ρ} {issue : Issue ρ}
    (h : ((pipeline.process submission).issues runner world)[3]? = some issue) :
    pipeline.Compares submission issue.call := by
  obtain ⟨changes, hreach, -⟩ := (passage_process pipeline submission runner world).reach
  obtain ⟨artifact, -, -, rfl⟩ := hreach.ran_of_getElem? h
  exact ⟨artifact, rfl⟩

/-- What a comparison starts is settled by the settings and the root of the submission. -/
theorem started_of_compares (hcomparator : config.comparator base = .ok pipeline.comparator)
    (hrecipe : config.recipe = .ok pipeline.recipe) (hroot : submission.root.isAbsolute = true) {call : Call}
    (h : pipeline.Compares submission call) :
    call.started base =
      if (⟨config.validate.compareProgram⟩ : Path).isBare then .searched ⟨config.validate.compareProgram⟩
      else .file (config.judgeWay.resolve (submission.root.resolve base)) := by
  obtain ⟨artifact, hcall⟩ := h
  have hprogram : call.command.program = config.validate.compareProgram := by
    rw [hcall]
    exact Config.program_of_comparator hcomparator
  have hdirectory : call.directory = submission.root.join config.build.outputSubdirectory := by
    rw [hcall, ← Config.outputSubdirectory_of_recipe hrecipe]
    rfl
  rw [← hprogram]
  split
  · next hbare => exact Call.started_of_bare call hbare base
  · next hbare =>
      have habsolute : call.directory.isAbsolute = true := by
        rw [hdirectory]
        exact Path.isAbsolute_join_of_isAbsolute hroot _
      rw [Call.started_of_not_bare call (Bool.eq_false_iff.mpr hbare) habsolute, Config.judgeWay, hdirectory,
        hprogram, Path.resolve_join, Path.resolve_join, Path.resolve_join]

variable (hcomparator : config.comparator base = .ok pipeline.comparator)
  (hrecipe : config.recipe = .ok pipeline.recipe)

include hcomparator hrecipe

/-- What is found without leaving the root of a submission is brought by the submission. -/
theorem judge_below_root (hroot : submission.root.isAbsolute = true)
    (hbare : (⟨config.validate.compareProgram⟩ : Path).isBare = false) (hinward : config.judgeWay.Inward)
    {call : Call} (h : pipeline.Compares submission call) :
    ∃ location, call.started base = .file location ∧ submission.root.resolve base <+: location := by
  refine ⟨_, ?_, List.prefix_append _ config.judgeWay.route.names⟩
  rw [started_of_compares hcomparator hrecipe hroot h, hbare, if_neg Bool.false_ne_true, hinward.resolve]

theorem impartial_iff_meets (hroot : submission.root.isAbsolute = true)
    (hother : other.root.isAbsolute = true) :
    pipeline.Impartial base submission other ↔
      (⟨config.validate.compareProgram⟩ : Path).isBare = true ∨
        config.judgeWay.Meets (submission.root.resolve base) (other.root.resolve base) := by
  have hstarted : ∀ call, pipeline.Compares submission call → _ :=
    fun call => started_of_compares hcomparator hrecipe hroot
  have hstarted' : ∀ call, pipeline.Compares other call → _ :=
    fun call => started_of_compares hcomparator hrecipe hother
  cases hbare : (⟨config.validate.compareProgram⟩ : Path).isBare with
  | false =>
      simp only [hbare, Bool.false_eq_true, if_false] at hstarted hstarted'
      simp only [Bool.false_eq_true, false_or]
      constructor
      · intro himpartial
        have hcall : pipeline.Compares submission (pipeline.comparator.call ⟨""⟩ _) := ⟨_, rfl⟩
        have hcall' : pipeline.Compares other (pipeline.comparator.call ⟨""⟩ _) := ⟨_, rfl⟩
        have hsame := himpartial.same _ _ hcall hcall'
        rw [hstarted _ hcall, hstarted' _ hcall'] at hsame
        obtain ⟨houtside, houtside'⟩ := himpartial.outside _ _ hcall (hstarted _ hcall)
        exact ⟨Started.file.inj hsame, houtside, houtside'⟩
      · intro hmeets
        constructor
        · intro call call' hcall hcall'
          rw [hstarted call hcall, hstarted' call' hcall', hmeets.same]
        · intro call location hcall hlocation
          obtain rfl := Started.file.inj ((hstarted call hcall).symm.trans hlocation)
          exact ⟨hmeets.outside, hmeets.outside'⟩
  | true =>
      simp only [hbare, if_true] at hstarted hstarted'
      refine iff_of_true ⟨fun call call' hcall hcall' => ?_, fun call location hcall hlocation => ?_⟩ (.inl rfl)
      · rw [hstarted call hcall, hstarted' call' hcall']
      · rw [hstarted call hcall] at hlocation
        cases hlocation

/-- The judge is chosen by the settings, and by nobody who is judged, exactly if it has a bare name, or the way to it
leads from the roots of both to one place outside of both. -/
theorem judge_impartial_iff (hroot : submission.root.isAbsolute = true)
    (hother : other.root.isAbsolute = true) :
    (∀ (runner : Runner ρ) world issue, ((pipeline.process submission).issues runner world)[3]? = some issue →
        pipeline.Compares submission issue.call) ∧
      (pipeline.Impartial base submission other ↔
        (⟨config.validate.compareProgram⟩ : Path).isBare = true ∨
          config.judgeWay.Meets (submission.root.resolve base) (other.root.resolve base)) :=
  ⟨fun _ _ _ => compares_of_issue, impartial_iff_meets hcomparator hrecipe hroot hother⟩

omit hcomparator hrecipe

/-- Settings that name this program to compare artifacts. -/
def comparingWith (program : String) : Config :=
  { validate := { referenceArtifact := some ⟨"/reference.png"⟩, compareProgram := program } }

theorem exists_pipeline (program : String) :
    ∃ pipeline : Pipeline, (comparingWith program).comparator [] = .ok pipeline.comparator ∧
      (comparingWith program).recipe = .ok pipeline.recipe :=
  ⟨⟨_, ".png", _⟩, rfl, rfl⟩

theorem judge_impartial_iff_diff :
    ∃ pipeline : Pipeline, (comparingWith "diff").comparator [] = .ok pipeline.comparator ∧
      (comparingWith "diff").recipe = .ok pipeline.recipe ∧
      pipeline.Impartial [] (.ofRoot "a" ⟨"/subs/a"⟩) (.ofRoot "b" ⟨"/subs/b"⟩) := by
  obtain ⟨pipeline, hcomparator, hrecipe⟩ := exists_pipeline "diff"
  have hfirst : (Submission.ofRoot "a" ⟨"/subs/a"⟩).root.isAbsolute = true := by decide
  have hsecond : (Submission.ofRoot "b" ⟨"/subs/b"⟩).root.isAbsolute = true := by decide
  obtain ⟨-, hiff⟩ := @judge_impartial_iff Unit _ _ _ _ _ hcomparator hrecipe hfirst hsecond
  exact ⟨pipeline, hcomparator, hrecipe, hiff.mpr (.inl (by decide))⟩

/-- Either of two submissions is judged by a file of its own. -/
theorem not_impartial_judge :
    ∃ pipeline : Pipeline, (comparingWith "./judge").comparator [] = .ok pipeline.comparator ∧
      (comparingWith "./judge").recipe = .ok pipeline.recipe ∧
      (∀ call, pipeline.Compares (.ofRoot "a" ⟨"/subs/a"⟩) call →
        call.started [] = .file ["subs", "a", "bin", "judge"]) ∧
      (∀ call, pipeline.Compares (.ofRoot "b" ⟨"/subs/b"⟩) call →
        call.started [] = .file ["subs", "b", "bin", "judge"]) ∧
      ¬ pipeline.Impartial [] (.ofRoot "a" ⟨"/subs/a"⟩) (.ofRoot "b" ⟨"/subs/b"⟩) := by
  obtain ⟨pipeline, hcomparator, hrecipe⟩ := exists_pipeline "./judge"
  have hfirst : ∀ call, pipeline.Compares (.ofRoot "a" ⟨"/subs/a"⟩) call →
      call.started [] = .file ["subs", "a", "bin", "judge"] := fun call hcall =>
    (started_of_compares hcomparator hrecipe (by decide) hcall).trans (by decide)
  have hsecond : ∀ call, pipeline.Compares (.ofRoot "b" ⟨"/subs/b"⟩) call →
      call.started [] = .file ["subs", "b", "bin", "judge"] := fun call hcall =>
    (started_of_compares hcomparator hrecipe (by decide) hcall).trans (by decide)
  refine ⟨pipeline, hcomparator, hrecipe, hfirst, hsecond, fun himpartial => ?_⟩
  have hsame := himpartial.same _ _ ⟨⟨""⟩, rfl⟩ ⟨⟨""⟩, rfl⟩
  rw [hfirst _ ⟨⟨""⟩, rfl⟩, hsecond _ ⟨⟨""⟩, rfl⟩] at hsame
  exact absurd hsame (by decide)

include hcomparator hrecipe

/-- For submissions that are found together it is enough that the way leaves the root, and comes back to neither. -/
theorem impartial_iff_of_discover {directory : Path} {world : World ρ} {submissions : List Submission}
    (hnamed : world.files.WellNamed) (hfound : (Roster.discover directory world).1 = .ok submissions)
    (hmem : submission ∈ submissions) (hother : other ∈ submissions) :
    pipeline.Impartial base submission other ↔
      (⟨config.validate.compareProgram⟩ : Path).isBare = true ∨ ¬ config.judgeWay.Inward ∧
        ¬ submission.root.resolve base <+: config.judgeWay.resolve (submission.root.resolve base) ∧
          ¬ other.root.resolve base <+: config.judgeWay.resolve (submission.root.resolve base) := by
  obtain ⟨above, hroots⟩ := Roster.roots_of_discover hnamed hfound
  obtain ⟨name, rfl, hroot⟩ := hroots submission hmem
  obtain ⟨name', rfl, hroot'⟩ := hroots other hother
  have habsolute (name : RawText) :
      (Submission.ofRoot name.lossy (above.path.join ⟨name⟩)).root.isAbsolute = true :=
    Path.isAbsolute_join_of_isAbsolute (Path.isAbsolute_path above) _
  rw [impartial_iff_meets hcomparator hrecipe (habsolute name) (habsolute name'), hroot, hroot',
    Path.meets_neighbours_iff]

end Pipeline

end Assay
