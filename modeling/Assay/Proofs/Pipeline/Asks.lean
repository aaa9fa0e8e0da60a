import Assay.Pipeline
import Assay.Proofs.Task.Along

/-!
# What a pipeline can ask and whom it can blame

The pipeline of a submission makes four calls and looks at one directory. The commands that its outcomes name
are those it was configured with, except for the comparison: its command holds the name of the artifact, and
that is chosen by the submission.
-/

namespace Assay

namespace Artifact

/-- The files in a directory that could be taken for the artifact. -/
def candidates (files : Files) (directory : Path) (suffix : String) : List RawText :=
  match files.listFiles files.directory directory with
  | .ok names => names.filter (hasSuffix suffix)
  | .error _ => []

theorem locate_of_candidates_singleton {files : Files} {directory : Path} {suffix : String}
    {name : RawText} (h : candidates files directory suffix = [name]) :
    locate files directory suffix = .ok (directory.join ⟨name⟩) := by
  unfold candidates at h
  unfold locate
  generalize files.listFiles files.directory directory = listing at h ⊢
  cases listing with
  | error fault => cases h
  | ok names => simp only [ofListing, choose, h]

theorem locate_of_candidates_nil {files : Files} {directory : Path} {suffix : String}
    (h : candidates files directory suffix = []) :
    ∃ problem, locate files directory suffix = .error problem := by
  unfold candidates at h
  unfold locate
  generalize files.listFiles files.directory directory = listing at h ⊢
  cases listing with
  | error fault => exact ⟨_, rfl⟩
  | ok names =>
      simp only [ofListing, choose, h]
      exact ⟨_, rfl⟩

end Artifact

namespace Pipeline

variable (pipeline : Pipeline) (submission : Submission)

/-- What is ever asked for on behalf of a submission. -/
inductive Asks : Effect → Prop
  | clean : Asks (.run (pipeline.cleanCall submission))
  | build : Asks (.run (pipeline.buildCall submission))
  | run : Asks (.run (pipeline.runCall submission))
  | compare (artifact : Path) :
      Asks (.run (pipeline.comparator.call artifact (pipeline.recipe.outputDirectory submission)))
  | ensureDirectory : Asks (.ensureDirectory (pipeline.recipe.outputDirectory submission))
  | listFiles : Asks (.listFiles (pipeline.recipe.outputDirectory submission))
  | note (event : Event) : Asks (.note event)

theorem directory_of_asks {call : Call} (h : pipeline.Asks submission (.run call)) :
    call.directory = submission.root ∨
      call.directory = pipeline.recipe.outputDirectory submission := by
  cases h with
  | clean => exact .inl rfl
  | build => exact .inl rfl
  | run => exact .inr rfl
  | compare artifact => exact .inr rfl

/-- Every file that is found, and could be taken for the artifact, has such a name. -/
def Finds (named : RawText → Prop) : (effect : Effect) → effect.Reply → Prop
  | .listFiles _, .ok names =>
    ∀ name ∈ names, Artifact.hasSuffix pipeline.artifactSuffix name → named name
  | _, _ => True

theorem finds_anything (effect : Effect) (reply : effect.Reply) :
    pipeline.Finds (fun _ => True) effect reply := by
  cases effect with
  | listFiles path =>
      cases reply with
      | error fault => trivial
      | ok names => exact fun _ _ _ => trivial
  | _ => trivial

/-- The command of an outcome, where it has one. -/
inductive Blames (named : RawText → Prop) : Outcome → Prop
  | nobody {outcome : Outcome} (h : outcome.command? = none) : Blames named outcome
  | build {outcome : Outcome} (h : outcome.command? = some pipeline.recipe.build) :
      Blames named outcome
  | run {outcome : Outcome} (h : outcome.command? = some pipeline.recipe.run) :
      Blames named outcome
  | compare {outcome : Outcome} {name : RawText} (hnamed : named name)
      (h : outcome.command? = some (pipeline.comparator.command
        ((pipeline.recipe.outputDirectory submission).join ⟨name⟩))) : Blames named outcome

variable {pipeline submission} {named : RawText → Prop}

theorem along_clean :
    (pipeline.clean submission).Along (pipeline.Asks submission) (pipeline.Finds named)
      fun _ => True := by
  refine Task.along_bind (Task.along_ask .clean) fun ending _ => ?_
  cases ending with
  | exited status =>
      by_cases hzero : status = 0
      · subst hzero
        exact trivial
      · simp only
        exact (Task.along_ask (.note _)).mono fun _ _ => trivial
  | timedOut limit => exact (Task.along_ask (.note _)).mono fun _ _ => trivial
  | notLaunched program detail => exact (Task.along_ask (.note _)).mono fun _ _ => trivial

theorem along_note {α : Type} {event : Event} {value : α} {yields : α → Prop}
    (h : yields value) :
    (Task.bind (Task.ask (.note event)) fun _ => Task.done value).Along (pipeline.Asks submission)
      (pipeline.Finds named) yields :=
  Task.along_bind (Task.along_ask (.note event)) fun _ _ => h

theorem along_build :
    (pipeline.build submission).Along (pipeline.Asks submission) (pipeline.Finds named)
      fun result => ∀ outcome, result = .ok (.settled outcome) →
        pipeline.Blames submission named outcome := by
  refine Task.along_bind along_clean fun _ _ => ?_
  refine Task.along_bind (Task.along_ask .ensureDirectory) fun made _ => ?_
  cases made with
  | error fault =>
      refine along_note fun outcome houtcome => ?_
      cases houtcome
      exact .build rfl
  | ok _ =>
      refine Task.along_bind (Task.along_ask .build) fun ending _ => ?_
      cases ending with
      | exited status =>
          by_cases hzero : status = 0
          · subst hzero
            intro outcome houtcome
            cases houtcome
          · simp only
            refine along_note fun outcome houtcome => ?_
            cases houtcome
            exact .build rfl
      | timedOut limit =>
          intro outcome houtcome
          cases houtcome
          exact .build rfl
      | notLaunched program detail =>
          intro outcome houtcome
          cases houtcome

theorem along_execute :
    (pipeline.execute submission).Along (pipeline.Asks submission) (pipeline.Finds named)
      fun result => ∀ outcome, result = .settled outcome →
        pipeline.Blames submission named outcome := by
  refine Task.along_bind (Task.along_ask .run) fun ending _ => ?_
  cases ending with
  | exited status =>
      by_cases hzero : status = 0
      · subst hzero
        intro outcome houtcome
        cases houtcome
      · simp only
        intro outcome houtcome
        cases houtcome
        exact .run rfl
  | timedOut limit =>
      refine along_note fun outcome houtcome => ?_
      cases houtcome
      exact .run rfl
  | notLaunched program detail =>
      refine along_note fun outcome houtcome => ?_
      cases houtcome
      exact .run rfl

theorem along_compare (artifact : Path) :
    (pipeline.comparator.compare artifact (pipeline.recipe.outputDirectory submission)).Along
      (pipeline.Asks submission) (pipeline.Finds named)
      fun result => ∀ comparison, result = .ok comparison → comparison = .identical ∨
        comparison = .different (pipeline.comparator.command artifact) ∨
        comparison = .timedOut (pipeline.comparator.command artifact) := by
  refine Task.along_bind (Task.along_ask (.compare artifact)) fun ending _ => ?_
  cases ending with
  | exited status =>
      by_cases hzero : status = 0
      · subst hzero
        intro comparison hcomparison
        cases hcomparison
        exact .inl rfl
      · simp only
        refine along_note fun comparison hcomparison => ?_
        cases hcomparison
        exact .inr (.inl rfl)
  | timedOut limit =>
      intro comparison hcomparison
      cases hcomparison
      exact .inr (.inr rfl)
  | notLaunched program detail =>
      intro comparison hcomparison
      cases hcomparison

theorem named_of_ofListing {directory artifact : Path} {listing : Except Fault (List RawText)}
    (hfinds : pipeline.Finds named (.listFiles directory) listing)
    (h : Artifact.ofListing directory pipeline.artifactSuffix listing = .ok artifact) :
    ∃ name, named name ∧ artifact = directory.join ⟨name⟩ := by
  cases listing with
  | error fault => cases h
  | ok names =>
      simp only [Artifact.ofListing, Artifact.choose] at h
      split at h
      · cases h
      · next name honly =>
        obtain ⟨hmem, hsuffix⟩ := List.mem_filter.mp (honly ▸ List.mem_singleton_self name)
        exact ⟨name, hfinds name hmem hsuffix, (Except.ok.inj h).symm⟩
      · cases h

theorem along_validate :
    (pipeline.validate submission).Along (pipeline.Asks submission) (pipeline.Finds named)
      fun result => ∀ outcome, result = .ok outcome →
        pipeline.Blames submission named outcome := by
  refine Task.along_bind (Task.along_ask .listFiles) fun listing hlisting => ?_
  split
  · next problem hproblem =>
    refine along_note fun outcome houtcome => ?_
    cases houtcome
    exact .nobody rfl
  · next artifact hartifact =>
    obtain ⟨name, hnamed, rfl⟩ := named_of_ofListing hlisting hartifact
    refine Task.along_bind (along_compare _) fun result hresult => ?_
    cases result with
    | error failure =>
        intro outcome houtcome
        cases houtcome
    | ok comparison =>
        rcases hresult comparison rfl with rfl | rfl | rfl
        · intro outcome houtcome
          cases houtcome
          exact .nobody rfl
        · intro outcome houtcome
          cases houtcome
          exact .compare hnamed rfl
        · intro outcome houtcome
          cases houtcome
          exact .compare hnamed rfl

theorem along_finish {outcome : Outcome} (h : pipeline.Blames submission named outcome) :
    (finish outcome).Along (pipeline.Asks submission) (pipeline.Finds named)
      fun result => ∀ outcome, result = .ok outcome →
        pipeline.Blames submission named outcome := by
  refine along_note fun other hother => ?_
  cases hother
  exact h

theorem along_process (pipeline : Pipeline) (submission : Submission) (named : RawText → Prop) :
    (pipeline.process submission).Along (pipeline.Asks submission) (pipeline.Finds named)
      fun result => ∀ outcome, result = .ok outcome →
        pipeline.Blames submission named outcome := by
  refine Task.along_bind (Task.along_ask (.note _)) fun _ _ => ?_
  refine Task.along_bind along_build fun built hbuilt => ?_
  rcases built with failure | onward | outcome
  · intro outcome houtcome
    cases houtcome
  · refine Task.along_bind (Task.along_ask (.note _)) fun _ _ => ?_
    refine Task.along_bind along_execute fun ran hran => ?_
    cases ran with
    | settled outcome => exact along_finish (hran outcome rfl)
    | onward =>
        refine Task.along_bind (Task.along_ask (.note _)) fun _ _ => ?_
        refine Task.along_bind along_validate fun validated hvalidated => ?_
        cases validated with
        | ok outcome => exact along_finish (hvalidated outcome rfl)
        | error failure =>
            intro outcome houtcome
            cases houtcome
  · exact along_finish (hbuilt outcome rfl)

end Pipeline

end Assay
