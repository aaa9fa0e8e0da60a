import Assay.Config
import Assay.Proofs.Files.Made
import Assay.Proofs.Files.Tree
import Assay.Proofs.Path.Resolution
import Assay.Roster

/-!
# How far apart submissions are

The roots of all that are found in one directory are next to each other. A submission works below its root, in a
directory that is named in the settings, and whether that keeps it away from the others is a matter of this name
alone.
-/

namespace Assay

theorem Config.outputSubdirectory_of_recipe {config : Config} {recipe : Recipe}
    (h : config.recipe = .ok recipe) : recipe.outputSubdirectory = config.build.outputSubdirectory := by
  unfold Config.recipe at h
  dsimp only at h
  rcases hclean : commandOf "build.clean" config.build.clean with failure | clean
  · rw [hclean] at h
    cases h
  rcases hbuild : config.build.build.elim (.ok config.build.defaultBuild) (commandOf "build.build")
    with failure | build
  · rw [hclean, hbuild] at h
    cases h
  rcases hrun : config.build.run.elim (.ok config.build.defaultRun) (commandOf "build.run")
    with failure | run
  · rw [hclean, hbuild, hrun] at h
    cases h
  · rw [hclean, hbuild, hrun] at h
    cases h
    rfl

namespace Roster

variable {ρ : Type} {files : Files} {location : Location} {submission : Submission}

theorem proper_of_openDirectory (h : files.WellNamed) {base : Location} {directory : Path}
    (hfound : files.openDirectory base directory = .ok location) : ∀ name ∈ location, Path.Proper name := by
  have hnode : files.node? location = some .directory :=
    (Files.backs_of_lookup (Files.openDirectory_eq_ok_iff.mp hfound)).1
  cases location with
  | nil => exact fun _ hname => nomatch hname
  | cons first rest => exact h _ (List.mem_map_of_mem (Table.mem_of_find?_eq_some hnode))

theorem opened_eq_ok_iff {directory : Path} : opened files directory = .ok location ↔
    ∃ spelled, files.canonicalize files.directory directory = .ok spelled ∧
      files.openDirectory files.directory spelled.path = .ok location := by
  unfold opened
  rcases files.canonicalize files.directory directory with fault | spelled <;> simp

theorem mem_ofLocation (h : files.WellNamed) (hmem : submission ∈ ofLocation files location) :
    ∃ name, Path.Proper name ∧ submission = .ofRoot name.lossy (location.path.join ⟨name⟩) := by
  obtain ⟨name, hname, rfl⟩ := List.mem_map.mp hmem
  have hbelow : name ∈ files.names location :=
    (List.mem_filter.mp ((List.mergeSort_perm _ _).mem_iff.mp hname)).1
  exact ⟨name, h.proper_of_mem_names hbelow, rfl⟩

theorem discover_fst (directory : Path) (world : World ρ) : (discover directory world).1 =
    match opened world.files directory with
    | .error fault => .error (.collection directory fault)
    | .ok location => .ok (ofLocation world.files location) := by
  unfold discover
  rcases opened world.files directory with fault | location <;> rfl

theorem discover_eq_ok_iff {directory : Path} {world : World ρ} {submissions : List Submission} :
    (discover directory world).1 = .ok submissions ↔
      ∃ location, opened world.files directory = .ok location ∧ submissions = ofLocation world.files location := by
  rw [discover_fst]
  rcases opened world.files directory with fault | location <;> simp [eq_comm]

theorem discover_eq_error_iff {directory : Path} {world : World ρ} {failure : Failure} :
    (discover directory world).1 = .error failure ↔
      ∃ fault, opened world.files directory = .error fault ∧ failure = .collection directory fault := by
  rw [discover_fst]
  rcases opened world.files directory with fault | location <;> simp [eq_comm]

/-- The roots of those who are found lie directly below one location. -/
theorem roots_of_discover {directory : Path} {world : World ρ} {submissions : List Submission}
    (h : world.files.WellNamed) (hfound : (discover directory world).1 = .ok submissions) :
    ∃ above : Location, ∀ submission ∈ submissions, ∃ name,
      submission = .ofRoot name.lossy (above.path.join ⟨name⟩) ∧
        ∀ base, submission.root.resolve base = above ++ [name] := by
  obtain ⟨above, hopened, rfl⟩ := discover_eq_ok_iff.mp hfound
  obtain ⟨spelled, -, habove⟩ := opened_eq_ok_iff.mp hopened
  refine ⟨above, fun submission hmem => ?_⟩
  obtain ⟨name, hproper, rfl⟩ := mem_ofLocation h hmem
  refine ⟨name, rfl, fun base => ?_⟩
  rw [Submission.ofRoot, Path.resolve_join, Path.resolve_path (proper_of_openDirectory h habove),
    Path.resolve_of_proper hproper]

/-- One of two submissions works below its own root and not below that of the other one, and they do not work in the
same place. Paths are taken as they are written. -/
structure Isolated (recipe : Recipe) (base : Location) (submission other : Submission) : Prop where
  below : submission.root.resolve base <+: (recipe.outputDirectory submission).resolve base
  outside : ¬ other.root.resolve base <+: (recipe.outputDirectory submission).resolve base
  distinct : (recipe.outputDirectory submission).resolve base ≠ (recipe.outputDirectory other).resolve base

/-- Submissions are kept apart by an output directory that stays below where it starts, and by no other. -/
theorem isolated_iff {config : Config} {recipe : Recipe} (hrecipe : config.recipe = .ok recipe)
    {directory : Path} {world : World ρ} {submissions : List Submission} (hnamed : world.files.WellNamed)
    (hfound : (discover directory world).1 = .ok submissions) {submission other : Submission}
    (hmem : submission ∈ submissions) (hother : other ∈ submissions) (hne : submission ≠ other)
    (base : Location) :
    Isolated recipe base submission other ↔ config.build.outputSubdirectory.Inward := by
  obtain ⟨above, hroots⟩ := roots_of_discover hnamed hfound
  obtain ⟨name, rfl, hroot⟩ := hroots submission hmem
  obtain ⟨name', rfl, hroot'⟩ := hroots other hother
  have hnames : name ≠ name' := fun heq => hne (by rw [heq])
  have hworks (submission : Submission) : (recipe.outputDirectory submission).resolve base =
      config.build.outputSubdirectory.resolve (submission.root.resolve base) := by
    rw [Recipe.outputDirectory, Path.resolve_join, Config.outputSubdirectory_of_recipe hrecipe]
  constructor
  · intro hisolated
    apply Decidable.byContradiction
    intro houtward
    apply hisolated.distinct
    rw [hworks, hworks, hroot, hroot']
    exact Path.resolve_neighbours houtward above name name'
  · intro hinward
    have hworks' (submission : Submission) : (recipe.outputDirectory submission).resolve base =
        submission.root.resolve base ++ config.build.outputSubdirectory.route.names := by
      rw [hworks, hinward.resolve]
    constructor
    · rw [hworks']
      exact List.prefix_append _ _
    · rw [hworks', hroot, hroot', List.append_assoc, List.prefix_append_right_inj, List.singleton_append,
        List.cons_prefix_cons]
      exact fun hprefix => hnames hprefix.1.symm
    · rw [hworks', hworks', hroot, hroot', List.append_assoc, List.append_assoc]
      intro heq
      exact hnames (List.cons.inj (List.append_cancel_left heq)).1

/-- A directory with two submissions. -/
def pairFiles : Files :=
  { Files.bare ["subs"] with
    nodes := ((Files.bare ["subs"]).nodes.put ["subs", "a"] .directory).put ["subs", "b"] .directory }

def pair : List Submission := [.ofRoot "a" ⟨"/subs/a"⟩, .ofRoot "b" ⟨"/subs/b"⟩]

theorem discover_pair : (discover ⟨"/subs"⟩ (.start pairFiles ())).1 = .ok pair := by
  have hdirectory : opened (World.start pairFiles ()).files ⟨"/subs"⟩ = .ok ["subs"] := by decide
  have hnames : directories (World.start pairFiles ()).files ["subs"] = (["a", "b"] : Location) := by decide
  have hsorted : (["a", "b"] : Location).mergeSort (fun left right => left.lossy ≤ right.lossy) =
      (["a", "b"] : Location) :=
    List.mergeSort_of_pairwise (by decide)
  unfold discover
  simp only [hdirectory, ofLocation, hnames, hsorted]
  decide

theorem isolated_iff_pair :
    ∃ recipe, ({} : Config).recipe = .ok recipe ∧
      Isolated recipe [] (.ofRoot "a" ⟨"/subs/a"⟩) (.ofRoot "b" ⟨"/subs/b"⟩) := by
  have hnamed : (World.start pairFiles ()).files.WellNamed := by
    unfold Files.WellNamed
    decide
  obtain ⟨recipe, hrecipe⟩ : ∃ recipe, ({} : Config).recipe = .ok recipe := ⟨_, rfl⟩
  have hinward : ({} : Config).build.outputSubdirectory.Inward := by decide
  exact ⟨recipe, hrecipe, (isolated_iff hrecipe hnamed discover_pair (List.mem_cons_self ..)
    (List.mem_cons_of_mem _ (List.mem_cons_self ..)) (by decide) []).mpr hinward⟩

/-- Two submissions that are found in one directory, and work in the same one. -/
theorem not_isolated_shared :
    let config : Config := { build := { outputSubdirectory := ⟨"/shared"⟩ } }
    (discover ⟨"/subs"⟩ (.start pairFiles ())).1 = .ok pair ∧
      ∃ recipe, config.recipe = .ok recipe ∧ pair.map recipe.outputDirectory = [⟨"/shared"⟩, ⟨"/shared"⟩] ∧
        ¬ Isolated recipe [] (.ofRoot "a" ⟨"/subs/a"⟩) (.ofRoot "b" ⟨"/subs/b"⟩) := by
  refine ⟨discover_pair, _, rfl, by decide, fun hisolated => hisolated.distinct ?_⟩
  decide

end Roster

end Assay
