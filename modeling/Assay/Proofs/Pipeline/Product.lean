import Assay.Proofs.Pipeline.Judge

/-!
# What is run is what was built

Without commands of their own, submissions are built and run by commands that name the same program in two ways:
`make` is given a path from the root, and what is run is named from the output directory. The two paths are put
together from the same pieces in another order, and the `./` that makes a path of the second name does not count.
-/

namespace Assay

namespace Path

/-- The components of a path that make a difference to where it leads. -/
def waypoints (path : Path) : List Component := path.components.filter (· ≠ .here)

theorem filter_named (segments : List RawText) :
    (segments.map Component.ofSegment).filter (· ≠ .here) =
      (segments.filter (· ≠ ("." : RawText))).map Component.ofSegment := by
  induction segments with
  | nil => rfl
  | cons segment rest ih =>
      by_cases hhere : segment = "."
      · simpa [Component.ofSegment, hhere] using ih
      · have hcomponent : Component.ofSegment segment ≠ .here := by
          by_cases hup : segment = ".." <;> simp [Component.ofSegment, hhere, hup]
        rw [List.map_cons, List.filter_cons_of_pos (by simpa using hcomponent),
          List.filter_cons_of_pos (by simpa using hhere), List.map_cons, ih]

theorem waypoints_eq (path : Path) :
    path.waypoints =
      (if path.isAbsolute then [.root] else []) ++ path.steps.map Component.ofSegment := by
  have hnamed := filter_named path.segments
  rw [waypoints, components, steps, ← hnamed]
  cases path.isAbsolute with
  | false =>
      simp only [Bool.false_eq_true, if_false, List.nil_append]
      split
      · next rest heq => simp [heq, List.filter_filter]
      · simp [List.filter_filter]
  | true => simp [List.filter_filter]

theorem steps_join_join (base middle : Path) {other : Path} (h : other.isAbsolute = false) :
    ((base.join middle).join other).isAbsolute = (base.join (middle.join other)).isAbsolute ∧
      ((base.join middle).join other).steps = (base.join (middle.join other)).steps := by
  have hmiddle := isAbsolute_join middle h
  rw [isAbsolute_join _ h, steps_join _ h]
  cases habsolute : middle.isAbsolute with
  | false =>
      have hboth : (middle.join other).isAbsolute = false := hmiddle.trans habsolute
      rw [isAbsolute_join _ habsolute, isAbsolute_join _ hboth, steps_join _ habsolute, steps_join _ hboth,
        steps_join _ h, List.append_assoc]
      exact ⟨rfl, rfl⟩
  | true =>
      have hfirst : base.join middle = middle := if_pos habsolute
      have hsecond : base.join (middle.join other) = middle.join other := if_pos (hmiddle.trans habsolute)
      rw [hfirst, hsecond, steps_join _ h]
      exact ⟨hmiddle.symm, rfl⟩

theorem foldl_step_steps (path : Path) (start : Location) :
    path.steps.foldl Location.step start = path.segments.foldl Location.step start := by
  rw [steps]
  induction path.segments generalizing start with
  | nil => rfl
  | cons segment rest ih =>
      by_cases hhere : segment = "."
      · simpa [Location.step, hhere] using ih start
      · rw [List.filter_cons_of_pos (by simpa using hhere), List.foldl_cons, List.foldl_cons, ih]

/-- Where a path leads is settled by its steps, and by where it starts. -/
theorem resolve_eq_of_steps_eq {path other : Path} (habsolute : path.isAbsolute = other.isAbsolute)
    (hsteps : path.steps = other.steps) (base : Location) : path.resolve base = other.resolve base := by
  rw [resolve, resolve, ← foldl_step_steps, ← foldl_step_steps, hsteps, habsolute]

theorem waypoints_eq_of_steps_eq {path other : Path} (habsolute : path.isAbsolute = other.isAbsolute)
    (hsteps : path.steps = other.steps) : path.waypoints = other.waypoints := by
  rw [waypoints_eq, waypoints_eq, habsolute, hsteps]

/-! ### A name made into a path -/

theorem segments_dotted (name : RawText) :
    (⟨"./" ++ name⟩ : Path).segments = ("." : RawText) :: (⟨name⟩ : Path).segments := by
  have hbytes : (RawText.ofText "./" ++ name).bytes = [0x2E] ++ separator :: name.bytes := rfl
  rw [segments, ← pieces, hbytes, pieces_append]
  rfl

theorem isAbsolute_dotted (name : RawText) : (⟨"./" ++ name⟩ : Path).isAbsolute = false := rfl

theorem steps_dotted (name : RawText) : (⟨"./" ++ name⟩ : Path).steps = (⟨name⟩ : Path).steps := by
  rw [steps, segments_dotted]
  rfl

theorem components_dotted (name : RawText) :
    (⟨"./" ++ name⟩ : Path).components = .here :: (⟨name⟩ : Path).steps.map Component.ofSegment := by
  rw [components, isAbsolute_dotted, segments_dotted, steps, ← filter_named]
  rfl

/-- A name that is made into a path is looked up by the system only if nothing is left of it. -/
theorem isBare_dotted (name : RawText) :
    (⟨"./" ++ name⟩ : Path).isBare = (⟨name⟩ : Path).steps.isEmpty := by
  rw [isBare, isAbsolute_dotted, components_dotted]
  cases (⟨name⟩ : Path).steps <;> simp

/-- The same file twice, named from the directory it is in and named from above. -/
theorem same_join_dotted (base middle : Path) {name : RawText}
    (h : (⟨name⟩ : Path).isAbsolute = false) :
    ((base.join middle).join ⟨"./" ++ name⟩).isAbsolute = (base.join (middle.join ⟨name⟩)).isAbsolute ∧
      ((base.join middle).join ⟨"./" ++ name⟩).steps = (base.join (middle.join ⟨name⟩)).steps := by
  obtain ⟨habsolute, hsteps⟩ := steps_join_join base middle h
  rw [← habsolute, ← hsteps, isAbsolute_join _ h, isAbsolute_join _ (isAbsolute_dotted name),
    steps_join _ h, steps_join _ (isAbsolute_dotted name), steps_dotted]
  exact ⟨rfl, rfl⟩

theorem waypoints_eq_nil_iff {path : Path} (h : path.isAbsolute = false) :
    path.waypoints = [] ↔ path.steps = [] := by
  rw [waypoints_eq, h]
  exact List.map_eq_nil_iff

theorem waypoints_ne_nil_of_isAbsolute {path : Path} (h : path.isAbsolute = true) :
    path.waypoints ≠ [] := by
  rw [waypoints_eq, h]
  exact List.cons_ne_nil _ _

end Path

namespace Call

variable {call : Call} {base middle : Path} {name : String}

section

variable (hprogram : call.command.program = "./" ++ name) (hdirectory : call.directory = base.join middle)
  (hbase : base.isAbsolute = true) (hname : (⟨name⟩ : Path).isAbsolute = false)

include hprogram hname

/-- A single `.` is not put behind the directory, so the system is asked for it. -/
theorem programPath_of_nothing (h : (⟨name⟩ : Path).waypoints = []) :
    call.programPath = ⟨"./" ++ name⟩ ∧ ∀ location, call.started location = .searched ⟨"./" ++ name⟩ := by
  have hbare : (⟨call.command.program⟩ : Path).isBare = true := by
    rw [hprogram, RawText.ofText_append, Path.isBare_dotted, List.isEmpty_iff]
    exact (Path.waypoints_eq_nil_iff hname).mp h
  rw [call.programPath_of_bare hbare, hprogram, RawText.ofText_append]
  refine ⟨rfl, fun location => ?_⟩
  rw [call.started_of_bare hbare, hprogram, RawText.ofText_append]

include hdirectory

theorem programPath_of_something (h : (⟨name⟩ : Path).waypoints ≠ []) :
    call.programPath = (base.join middle).join ⟨"./" ++ name⟩ ∧
      (base.isAbsolute = true → ∀ location,
        call.started location = .file (((base.join middle).join ⟨"./" ++ name⟩).resolve location)) := by
  have hbare : (⟨call.command.program⟩ : Path).isBare = false := by
    rw [hprogram, RawText.ofText_append, Path.isBare_dotted, List.isEmpty_eq_false_iff]
    exact fun hsteps => h ((Path.waypoints_eq_nil_iff hname).mpr hsteps)
  rw [call.programPath_of_not_bare hbare, hprogram, RawText.ofText_append, hdirectory]
  refine ⟨rfl, fun hbase location => ?_⟩
  have habsolute : call.directory.isAbsolute = true := by
    rw [hdirectory]
    exact Path.isAbsolute_join_of_isAbsolute hbase middle
  rw [call.started_of_not_bare hbare habsolute, hprogram, RawText.ofText_append, hdirectory]

include hbase

theorem waypoints_programPath_iff :
    call.programPath.waypoints = (base.join (middle.join ⟨name⟩)).waypoints ↔
      (⟨name⟩ : Path).waypoints ≠ [] := by
  by_cases hnothing : (⟨name⟩ : Path).waypoints = []
  · refine iff_of_false (fun hsame => ?_) (not_not.mpr hnothing)
    apply Path.waypoints_ne_nil_of_isAbsolute (Path.isAbsolute_join_of_isAbsolute hbase (middle.join ⟨name⟩))
    rw [← hsame, (programPath_of_nothing hprogram hname hnothing).1, ← hnothing]
    exact Path.waypoints_eq_of_steps_eq ((Path.isAbsolute_dotted name).trans hname.symm)
      (Path.steps_dotted name)
  · refine iff_of_true ?_ hnothing
    obtain ⟨habsolute, hsteps⟩ := Path.same_join_dotted base middle hname
    rw [(programPath_of_something hprogram hdirectory hname hnothing).1]
    exact Path.waypoints_eq_of_steps_eq habsolute hsteps

theorem started_iff (location : Location) :
    call.started location = .file ((base.join (middle.join ⟨name⟩)).resolve location) ↔
      (⟨name⟩ : Path).waypoints ≠ [] := by
  by_cases hnothing : (⟨name⟩ : Path).waypoints = []
  · refine iff_of_false (fun hstarted => ?_) (not_not.mpr hnothing)
    rw [(programPath_of_nothing hprogram hname hnothing).2] at hstarted
    cases hstarted
  · refine iff_of_true ?_ hnothing
    obtain ⟨habsolute, hsteps⟩ := Path.same_join_dotted base middle hname
    rw [(programPath_of_something hprogram hdirectory hname hnothing).2 hbase]
    exact congrArg Started.file (Path.resolve_eq_of_steps_eq habsolute hsteps location)

end

end Call

namespace Config

variable {config : Config}

theorem recipe_of_defaults (hbuild : config.build.build = none) (hrun : config.build.run = none) :
    config.recipe = (commandOf "build.clean" config.build.clean).map fun clean =>
      { clean
        build := config.build.defaultBuild
        run := config.build.defaultRun
        outputSubdirectory := config.build.outputSubdirectory
        runLimit := .ofSeconds config.build.runLimitSeconds } := by
  unfold Config.recipe
  dsimp only
  rw [hbuild, hrun]
  rcases commandOf "build.clean" config.build.clean with failure | clean <;> rfl

theorem exists_recipe_iff (hbuild : config.build.build = none) (hrun : config.build.run = none) :
    (∃ recipe, config.recipe = .ok recipe) ↔ config.build.clean ≠ [] := by
  rw [recipe_of_defaults hbuild hrun]
  cases config.build.clean with
  | nil => exact iff_of_false (fun ⟨_, hrecipe⟩ => nomatch hrecipe) fun hne => hne rfl
  | cons program arguments => exact iff_of_true ⟨_, rfl⟩ (List.cons_ne_nil _ _)

theorem commands_of_recipe {recipe : Recipe} (hbuild : config.build.build = none)
    (hrun : config.build.run = none) (hrecipe : config.recipe = .ok recipe) :
    recipe.build = config.build.defaultBuild ∧ recipe.run = config.build.defaultRun := by
  rw [recipe_of_defaults hbuild hrun] at hrecipe
  cases hclean : commandOf "build.clean" config.build.clean with
  | error failure =>
      rw [hclean] at hrecipe
      cases hrecipe
  | ok clean =>
      rw [hclean] at hrecipe
      cases hrecipe
      exact ⟨rfl, rfl⟩

end Config

namespace Pipeline

/-- What is started is what `make` was told to make, both by its path and by where that leads, exactly if there is
more to the target than `.`. The path is told as a text, which it is in all settings that were read. -/
theorem run_starts_built {config : Config} (hbuild : config.build.build = none)
    (hrun : config.build.run = none) (htarget : (⟨config.build.target⟩ : Path).isAbsolute = false)
    (houtput : config.build.outputSubdirectory.text.IsText) :
    ((∃ recipe, config.recipe = .ok recipe) ↔ config.build.clean ≠ []) ∧
      ∀ (pipeline : Pipeline) (submission : Submission), config.recipe = .ok pipeline.recipe →
        submission.root.isAbsolute = true →
          ∃ made, (pipeline.buildCall submission).command.arguments = [made] ∧
            ((pipeline.runCall submission).programPath.waypoints =
                ((pipeline.buildCall submission).directory.join ⟨made⟩).waypoints ↔
              (⟨config.build.target⟩ : Path).waypoints ≠ []) ∧
            ∀ base, (pipeline.runCall submission).started base =
                .file (((pipeline.buildCall submission).directory.join ⟨made⟩).resolve base) ↔
              (⟨config.build.target⟩ : Path).waypoints ≠ [] := by
  refine ⟨Config.exists_recipe_iff hbuild hrun, fun pipeline submission hrecipe hroot => ?_⟩
  obtain ⟨hbuilds, hruns⟩ := Config.commands_of_recipe hbuild hrun hrecipe
  have harguments : (pipeline.buildCall submission).command.arguments =
      [(config.build.outputSubdirectory.join ⟨config.build.target⟩).shown] :=
    congrArg Command.arguments hbuilds
  have hprogram : (pipeline.runCall submission).command.program = "./" ++ config.build.target :=
    congrArg Command.program hruns
  have hdirectory : (pipeline.runCall submission).directory =
      submission.root.join config.build.outputSubdirectory := by
    rw [← Config.outputSubdirectory_of_recipe hrecipe]
    rfl
  have hmade : (config.build.outputSubdirectory.join ⟨config.build.target⟩).text.IsText :=
    Path.isText_join houtput (RawText.isText_ofText config.build.target)
  refine ⟨_, harguments, ?_⟩
  rw [Path.mk_shown hmade]
  exact ⟨Call.waypoints_programPath_iff hprogram hdirectory hroot htarget,
    Call.started_iff hprogram hdirectory hroot htarget⟩

/-- Settings that build this program in this directory. -/
def building (target : String) (outputSubdirectory : Path) : Config :=
  { build := { target, outputSubdirectory } }

/-- The output directory is the root, and the target is not directly in it. -/
theorem run_starts_built_nested :
    let pipeline : Pipeline :=
      { recipe :=
          ⟨⟨"make", ["clean"]⟩, ⟨"make", ["a1/./paster"]⟩, ⟨"./a1/./paster", []⟩, ⟨""⟩, .ofSeconds 300⟩
        artifactSuffix := ".png"
        comparator := ⟨"cmp", ⟨"/reference.png"⟩, ⟨5⟩⟩ }
    let submission := Submission.ofRoot "s" ⟨"/subs/s"⟩
    (building "a1/./paster" ⟨""⟩).recipe = .ok pipeline.recipe ∧
      (pipeline.runCall submission).programPath.waypoints =
        (submission.root.join ⟨"a1/./paster"⟩).waypoints ∧
      (pipeline.runCall submission).started [] = .file ["subs", "s", "a1", "paster"] := by
  intro pipeline submission
  have hrecipe : (building "a1/./paster" ⟨""⟩).recipe = .ok pipeline.recipe := rfl
  obtain ⟨-, hsame⟩ := @run_starts_built (building "a1/./paster" ⟨""⟩) rfl rfl (by decide) (by decide)
  obtain ⟨made, harguments, hpath, hstarted⟩ := hsame pipeline submission hrecipe (by decide)
  obtain rfl : "a1/./paster" = made := (List.cons.inj harguments).1
  have hnamed : (⟨"a1/./paster"⟩ : Path).waypoints ≠ [] := by decide
  refine ⟨hrecipe, hpath.mpr hnamed, ((hstarted []).mpr hnamed).trans ?_⟩
  exact congrArg Started.file (by decide)

end Pipeline

end Assay
