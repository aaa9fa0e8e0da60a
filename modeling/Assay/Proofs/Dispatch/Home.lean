import Assay.Proofs.Dispatch.Shadowed
import Assay.Proofs.Files.Linkless

/-!
# At home

That a submission stays at home is a question of links. The home of a submission is where its root leads, and
its output is below that; without links nothing leads away from there. Everything above the homes is on the
way to them, and has to be there already and to stay as it is.
-/

namespace Assay

/-- Everything above the home is there, and is shared. -/
def Settled (home : Location) (shared : Region) (files : Files) : Prop :=
  ∀ above, above <+: home → above ≠ home → shared above = true ∧ files.node? above ≠ none

variable {home : Location} {shared : Region} {files : Files}

theorem Settled.reach (h : Settled home shared files) {read finish : Location}
    (hread : read <+: finish) (hhome : home <+: finish) :
    (Region.below home).union shared read = true := by
  rw [Region.union]
  rcases List.prefix_or_prefix_of_prefix hread hhome with habove | hbelow
  · by_cases heq : read = home
    · subst heq
      simp [Region.below]
    · simp [(h read habove heq).1]
  · have hown : Region.below home read = true := List.isPrefixOf_iff_prefix.mpr hbelow
    simp [hown]

namespace Effect

variable {path : Path}

theorem staysWithin_ensureDirectory (h : files.Linkless) (hsettled : Settled home shared files)
    (hup : (".." : RawText) ∉ path.segments) (hhome : home <+: Files.destination files.directory path) :
    (ensureDirectory path).StaysWithin (.below home) shared files := by
  have hway := h.ensureDirectoryReads files.directory hup
  refine ⟨fun read hread => hsettled.reach (hway read hread) hhome, ?_⟩
  let way : Region := fun location =>
    location.isPrefixOf (Files.destination files.directory path)
  have halike := (Files.SameOn.refl way files).ensureDirectory fun read hread =>
    List.isPrefixOf_iff_prefix.mpr (hway read hread)
  obtain ⟨locations, hmade, -, hfree⟩ := halike.made
  rw [hmade]
  refine Files.sameOn_withDirectories (fun location hlocation => ?_) files
  obtain ⟨_, hnone, hmem⟩ := hfree location hlocation
  rw [Region.outside, Bool.not_eq_false', Region.below, List.isPrefixOf_iff_prefix]
  rcases List.prefix_or_prefix_of_prefix hhome (List.isPrefixOf_iff_prefix.mp hmem) with hown | habove
  · exact hown
  · by_contra hout
    exact (hsettled location habove fun heq => hout (heq ▸ List.prefix_rfl)).2 hnone

theorem staysWithin_listFiles (h : files.Plain) (hsettled : Settled home shared files)
    (hup : (".." : RawText) ∉ path.segments) (hhome : home <+: Files.destination files.directory path) :
    (listFiles path).StaysWithin (.below home) shared files where
  reads read hread := by
    obtain ⟨names, hway⟩ := h.listFilesReads files.directory hup read hread
    exact hsettled.reach hway (hhome.trans (List.prefix_append _ names))
  entries location hfound name := by
    obtain rfl := h.linkless.openDirectory hup hfound
    exact hsettled.reach List.prefix_rfl (hhome.trans (List.prefix_append _ [name]))

end Effect

namespace Dispatcher

variable {ρ : Type} {layout : Layout} {dispatcher : Dispatcher} {runner : Runner ρ}
  {world : World ρ} {submission : Submission}

/-- Neither a command that keeps to the home nor the pipeline itself changes what is above. -/
theorem settled_moments
    (hkeeps : ∀ call, dispatcher.pipeline.Asks submission (.run call) →
      runner.Keeps (layout.own submission) layout.shared call)
    (hsettled : Settled (layout.home submission) layout.shared world.files) :
    ∀ moment ∈ (dispatcher.pipeline.process submission).moments runner world,
      dispatcher.pipeline.Asks submission moment.effect ∧
        moment.world.files.directory = world.files.directory ∧
        Settled (layout.home submission) layout.shared moment.world.files := by
  let keeps : World ρ → Prop := fun before =>
    before.files.directory = world.files.directory ∧
      Settled (layout.home submission) layout.shared before.files
  have hstep : ∀ effect before, dispatcher.pipeline.Asks submission effect → keeps before →
      keeps (effect.perform runner before).2 := by
    intro effect before hasks hbefore
    obtain ⟨hdirectory, hthere⟩ := hbefore
    cases effect with
    | run call =>
        have hsame := (hkeeps call hasks).confined before.files before.memory
        refine ⟨hsame.directory.symm.trans hdirectory, fun above habove hne => ?_⟩
        obtain ⟨hshared, hnode⟩ := hthere above habove hne
        refine ⟨hshared, ?_⟩
        have hout : (layout.own submission).outside above = true := by
          rw [Region.outside, Bool.not_eq_true', Layout.own, Region.below, Bool.eq_false_iff]
          intro hbelow
          have hhome := List.isPrefixOf_iff_prefix.mp hbelow
          exact hne (habove.eq_of_length_le hhome.length_le)
        exact hsame.node?_ne_none hout hnode
    | ensureDirectory path =>
        have hgrown := Files.grown_ensureDirectory before.files before.files.directory path
        refine ⟨hgrown.directory.trans hdirectory, fun above habove hne => ?_⟩
        obtain ⟨hshared, hnode⟩ := hthere above habove hne
        exact ⟨hshared, hgrown.node?_ne_none hnode⟩
    | listFiles path => exact ⟨hdirectory, hthere⟩
    | openStream path => cases hasks
    | note event => exact ⟨hdirectory, hthere⟩
  exact (Pipeline.along_process dispatcher.pipeline submission fun _ => True).moments
    (Pipeline.finds_anything dispatcher.pipeline) hstep ⟨rfl, hsettled⟩

/-- Where there are no links, submissions stay at home. -/
theorem staysHome_of_plain
    (hkeeps : ∀ call, dispatcher.pipeline.Asks submission (.run call) →
      runner.Keeps (layout.own submission) layout.shared call)
    (hroot : (".." : RawText) ∉ submission.root.segments)
    (houtput : (".." : RawText) ∉ dispatcher.pipeline.recipe.outputSubdirectory.segments)
    (hrelative : dispatcher.pipeline.recipe.outputSubdirectory.isAbsolute = false)
    (hhome : layout.home submission = Files.destination world.files.directory submission.root)
    (hsettled : Settled (layout.home submission) layout.shared world.files)
    (hplain : ∀ moment ∈ (dispatcher.pipeline.process submission).moments runner world,
      moment.world.files.Plain) :
    dispatcher.StaysHome layout runner world submission := by
  have hup : (".." : RawText) ∉ (dispatcher.pipeline.recipe.outputDirectory submission).segments := by
    rw [Recipe.outputDirectory, Path.segments_join _ hrelative]
    simp [hroot, houtput]
  intro moment hmoment
  obtain ⟨hasks, hdirectory, hthere⟩ := settled_moments hkeeps hsettled moment hmoment
  have hbelow : layout.home submission <+: Files.destination moment.world.files.directory
      (dispatcher.pipeline.recipe.outputDirectory submission) := by
    rw [hdirectory, Recipe.outputDirectory, Files.destination_join _ _ hrelative, hhome]
    exact List.prefix_append _ _
  have hfiles := hplain moment hmoment
  rcases moment with ⟨effect, before⟩
  cases hasks with
  | ensureDirectory => exact Effect.staysWithin_ensureDirectory hfiles.linkless hthere hup hbelow
  | listFiles => exact Effect.staysWithin_listFiles hfiles hthere hup hbelow
  | _ => trivial

end Dispatcher

end Assay
