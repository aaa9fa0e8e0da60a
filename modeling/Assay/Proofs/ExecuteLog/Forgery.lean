import Assay.Proofs.ExecuteLog.Staged
import Assay.Proofs.Record.Faithful

/-!
# What a submission can do to the others

A submission chooses the name of its artifact, the name is part of the command that compares it, and the command
is written to the log as it is. So a name with line breaks in it writes lines of its own. A submission that can
leave such a name can change what the log says of the others exactly if one of those lines is about somebody
else.
-/

namespace Assay

namespace ExecuteLog

variable {ρ : Type}

/-- No line that a file of this name can add to the log is about anybody but the submission that left it. -/
def Tame (pipeline : Pipeline) (submission : Submission) (name : RawText) : Prop :=
  ∀ other ∈ Record.afterBreaks (pipeline.comparator.command
      ((pipeline.recipe.outputDirectory submission).join ⟨name⟩)).text,
    other.label = submission.label
deriving Decidable

/-- A name is shown behind the directory that it is put in. -/
theorem exists_join_shown (directory : Path) (name : RawText) :
    ∃ before, (directory.join ⟨name⟩).shown = before ++ name.lossy ∧
      ('\n' ∉ directory.shown.toList → '\n' ∉ before.toList) := by
  have hslash (text : RawText) : (text ++ "/" ++ name).lossy = text.lossy ++ "/" ++ name.lossy := by
    have hone := @RawText.lossy_cons_ascii '/' (by decide) name.bytes
    rw [RawText.append_assoc, RawText.lossy_append (by rintro byte ⟨⟩; rfl), String.append_assoc]
    exact congrArg _ hone
  unfold Path.join
  split
  · exact ⟨"", String.empty_append.symm, fun _ => List.not_mem_nil⟩
  split
  · next hjoined =>
    by_cases hempty : directory.text.isEmpty = true
    · refine ⟨"", ?_, fun _ => List.not_mem_nil⟩
      rw [RawText.isEmpty_iff.mp hempty, RawText.empty_append, String.empty_append, Path.shown]
    -- The directory ends in a separator, so the name is shown as it would be on its own.
    obtain ⟨before, hbefore⟩ :=
      Path.eq_append_of_endsInSeparator ((Bool.or_eq_true_iff.mp hjoined).resolve_left hempty)
    have htext : directory.text = ⟨before⟩ ++ "/" := RawText.ext_bytes hbefore
    refine ⟨directory.shown, ?_, id⟩
    have hshown := RawText.lossy_append (RawText.head_ofText "/") ⟨before⟩
    rw [RawText.lossy_ofText] at hshown
    rw [Path.shown, Path.shown, htext, hslash, hshown]
  · exact ⟨directory.shown ++ "/", hslash directory.text, fun h => by simpa [String.toList_append] using h⟩

/-- Where the configuration has no line break, the name alone decides. -/
theorem tame_iff {pipeline : Pipeline} {submission : Submission} {name : RawText}
    (hprogram : '\n' ∉ pipeline.comparator.program.toList)
    (hreference : '\n' ∉ pipeline.comparator.reference.shown.toList)
    (hdirectory : '\n' ∉ (pipeline.recipe.outputDirectory submission).shown.toList) :
    Tame pipeline submission name ↔
      ∀ other ∈ Record.afterBreaks name.lossy, other.label = submission.label := by
  obtain ⟨before, hshown, hbefore⟩ :=
    exists_join_shown (pipeline.recipe.outputDirectory submission) name
  have hcommand : (pipeline.comparator.command
      ((pipeline.recipe.outputDirectory submission).join ⟨name⟩)).text =
        pipeline.comparator.program ++ " " ++ pipeline.comparator.reference.shown ++ " " ++ before ++
          name.lossy := by
    simp only [Comparator.command, Command.text, Command.argv, hshown, String.intercalate_cons_cons,
      String.intercalate_singleton, String.append_assoc]
  have hbreak : '\n' ∉ (pipeline.comparator.program ++ " " ++ pipeline.comparator.reference.shown ++
      " " ++ before).toList := by
    simp [String.toList_append, hprogram, hreference, hbefore hdirectory]
  rw [Tame, hcommand, Record.afterBreaks_append hbreak]

theorem tame_of_not_mem {pipeline : Pipeline} {submission : Submission} {name : RawText}
    (h : '\n' ∉ (pipeline.comparator.command
      ((pipeline.recipe.outputDirectory submission).join ⟨name⟩)).text.toList) :
    Tame pipeline submission name := by
  rw [Tame, Record.afterBreaks_of_not_mem h]
  exact fun _ hother => nomatch hother

namespace Occasion

variable {occasion : Occasion ρ} {label : String}

/-- What a submission can have written about itself is about itself only: its label and the commands of the
configuration take up one line, and so does, or might as well, every file that it is found to have left. -/
structure Guarded (occasion : Occasion ρ) (label : String) : Prop where
  labelled : ']' ∉ label.toList ∧ '\n' ∉ label.toList
  build : '\n' ∉ occasion.dispatcher.pipeline.recipe.build.text.toList
  run : '\n' ∉ occasion.dispatcher.pipeline.recipe.run.text.toList
  names : ∀ entry ∈ occasion.history, ∀ submission name,
    (submission, name) ∈
      Dispatcher.candidates occasion.dispatcher.pipeline.artifactSuffix entry →
    submission.label = label → Tame occasion.dispatcher.pipeline submission name

theorem Guarded.faithful_of_isLine {submission : Submission} {outcome : Outcome} {command : Command}
    (h : occasion.Guarded label) (hlabel : submission.label = label)
    (houtcome : outcome.command? = some command) (hcommand : '\n' ∉ command.text.toList) :
    (Record.ofOutcome submission.label outcome).Faithful := by
  subst hlabel
  apply Record.faithful_of_isLine
  refine ⟨h.labelled.1, h.labelled.2, fun text htext => ?_⟩
  obtain ⟨other, hother, rfl⟩ := Option.map_eq_some_iff.mp htext
  rw [houtcome] at hother
  rw [← Option.some.inj hother]
  exact hcommand

theorem Guarded.faithful (h : occasion.Guarded label) (hended : occasion.result.stop = none) :
    ∀ record ∈ recordsOf occasion.reports, record.label = label → record.Faithful := by
  intro record hrecord hlabel
  obtain ⟨report, hreport, rfl⟩ := List.mem_map.mp hrecord
  obtain ⟨htrail, _⟩ := Dispatcher.trail_of_stop_eq_none hended
  have hblames := Dispatcher.blames_of_trail htrail h.names report (Occasion.reports_eq ▸ hreport)
  cases hblames with
  | nobody hnone =>
      subst hlabel
      apply Record.faithful_of_isLine
      refine ⟨h.labelled.1, h.labelled.2, fun text htext => ?_⟩
      simp [Record.ofOutcome, hnone] at htext
  | build hbuild => exact h.faithful_of_isLine hlabel hbuild h.build
  | run hrun => exact h.faithful_of_isLine hlabel hrun h.run
  | @compare name htame hcompare =>
      have hcommand : (Record.ofOutcome report.1.label report.2).command = some
          (occasion.dispatcher.pipeline.comparator.command
            ((occasion.dispatcher.pipeline.recipe.outputDirectory report.1).join ⟨name⟩)).text :=
        congrArg (Option.map Command.text) hcompare
      subst hlabel
      exact (Record.faithful_iff_afterBreaks h.labelled hcommand).mpr (htame rfl)

theorem Guarded.find?_verdicts (h : occasion.Guarded label) (hended : occasion.result.stop = none)
    {other : String} (hne : other ≠ label) :
    (Record.verdicts (Record.linesOf (recordsOf occasion.reports))).find? other =
      (Record.verdicts (Record.linesOf (recordsOf
        (occasion.reports.filter fun report => report.1.label ≠ label)))).find? other := by
  have hrecords : (recordsOf occasion.reports).filter (fun record => record.label ≠ label) =
      recordsOf (occasion.reports.filter fun report => report.1.label ≠ label) := by
    rw [recordsOf, List.filter_map]
    rfl
  rw [Record.find?_verdicts, Record.find?_verdicts,
    Record.filter_readAll_linesOf hne (h.faithful hended), hrecords]

end Occasion

/-- Two batches in which the same is reported of everybody else, in the same order, leave the same tags for
everybody else, as long as all that the one submission leaves behind is tame. -/
theorem find?_tags_eq {left right : Occasion ρ} {label : String} (hleft : left.Fresh)
    (hright : right.Fresh) (hguardedLeft : left.Guarded label)
    (hguardedRight : right.Guarded label)
    (hothers : (left.reports.filter fun report => report.1.label ≠ label) =
      right.reports.filter fun report => report.1.label ≠ label) :
    ∃ leftTags rightTags, left.tags = .ok leftTags ∧ right.tags = .ok rightTags ∧
      ∀ other, other ≠ label → leftTags.find? other = rightTags.find? other := by
  refine ⟨_, _, hleft.tags_eq, hright.tags_eq, fun other hne => ?_⟩
  rw [hguardedLeft.find?_verdicts hleft.ended hne, hguardedRight.find?_verdicts hright.ended hne,
    hothers]

/-! ### Two batches -/

/-- Two batches that differ only in what a submission leaves behind in its output directory. -/
structure Occasion.DifferIn (submission : Submission) (left right : Occasion ρ) : Prop where
  setting : left.dispatcher = right.dispatcher ∧ left.schedule = right.schedule ∧
    left.submissions = right.submissions ∧ left.log = right.log ∧ left.world = right.world
  calls : ∀ call files memory, call ≠ left.dispatcher.pipeline.runCall submission →
    left.runner call files memory = right.runner call files memory
  answers : ∀ call files memory,
    (left.runner call files memory).1 = (right.runner call files memory).1 ∧
      (left.runner call files memory).2.2 = (right.runner call files memory).2.2
  leaves : ∀ call files memory location,
    (left.runner call files memory).2.1.node? location ≠
      (right.runner call files memory).2.1.node? location →
    ∃ directory name, files.findDirectory files.directory call.directory = .ok directory ∧
      location = directory ++ [name]

/-- Two batches, with empty logs at first, that differ only in what a submission leaves behind: one of these
names or another, or none. -/
structure Variants (pipeline : Pipeline) (submission : Submission) (allowed : RawText → Prop)
    (left right : Occasion ρ) : Prop where
  pipeline_eq : left.dispatcher.pipeline = pipeline
  differIn : left.DifferIn submission right
  alone : ∀ other ∈ left.submissions, other.label = submission.label → other = submission
  fresh : ∀ occasion ∈ [left, right], occasion.Fresh
  leaves : ∀ occasion ∈ [left, right], ∀ entry ∈ occasion.history, ∀ name,
    (submission, name) ∈ Dispatcher.candidates pipeline.artifactSuffix entry → allowed name
  others : (left.reports.filter fun report => report.1.label ≠ submission.label) =
    right.reports.filter fun report => report.1.label ≠ submission.label

/-- Whichever of these names a submission leaves behind, the log says the same of the others. -/
def Unforgeable (pipeline : Pipeline) (submission : Submission) (allowed : RawText → Prop) : Prop :=
  ∀ (ρ : Type) (left right : Occasion ρ), Variants pipeline submission allowed left right →
    ∃ leftTags rightTags, left.tags = .ok leftTags ∧ right.tags = .ok rightTags ∧
      ∀ other, other ≠ submission.label → leftTags.find? other = rightTags.find? other

variable {pipeline : Pipeline} {submission : Submission} {allowed : RawText → Prop}

theorem Variants.guarded {left right : Occasion ρ} (h : Variants pipeline submission allowed left right)
    (hlabel : ']' ∉ submission.label.toList ∧ '\n' ∉ submission.label.toList)
    (hbuild : '\n' ∉ pipeline.recipe.build.text.toList)
    (hrun : '\n' ∉ pipeline.recipe.run.text.toList)
    (htame : ∀ name, allowed name → Tame pipeline submission name) :
    ∀ occasion ∈ [left, right], occasion.Guarded submission.label := by
  obtain ⟨hdispatcher, _, hsubmissions, _⟩ := h.differIn.setting
  have hsame : ∀ occasion ∈ [left, right], occasion.dispatcher.pipeline = pipeline ∧
      occasion.submissions = left.submissions := by
    intro occasion hoccasion
    rcases List.mem_cons.mp hoccasion with rfl | hoccasion
    · exact ⟨h.pipeline_eq, rfl⟩
    · obtain rfl := List.mem_singleton.mp hoccasion
      exact ⟨hdispatcher ▸ h.pipeline_eq, hsubmissions.symm⟩
  intro occasion hoccasion
  obtain ⟨hpipeline, hjobs⟩ := hsame occasion hoccasion
  have hleaves := h.leaves occasion hoccasion
  rw [← hpipeline] at hleaves hbuild hrun htame
  refine ⟨hlabel, hbuild, hrun, fun entry hentry other name hcandidate hother => ?_⟩
  obtain ⟨htrail, _⟩ := Dispatcher.trail_of_stop_eq_none (h.fresh occasion hoccasion).ended
  have hmem := Dispatcher.mem_of_mem_candidates htrail hentry hcandidate
  rw [Dispatcher.jobs_start, hjobs] at hmem
  obtain rfl := h.alone other hmem hother
  exact htame name (hleaves entry hentry name hcandidate)

/-! ### A submission that can leave a name -/

def leave (directory : Path) (name : RawText) (files : Files) : Files :=
  match files.findDirectory files.directory directory with
  | .ok location =>
    { files.put (location ++ [name]) (.file ⟨files.nextFile⟩ .empty false) with
      nextFile := files.nextFile + 1 }
  | .error _ => files

theorem node?_leave {directory : Path} {name : RawText} {files : Files} {location : Location}
    (h : files.node? location ≠ (leave directory name files).node? location) :
    ∃ above, files.findDirectory files.directory directory = .ok above ∧
      location = above ++ [name] := by
  unfold leave at h
  split at h
  · next above habove =>
    refine ⟨above, habove, ?_⟩
    by_contra hne
    have hkept : (files.put (above ++ [name]) (.file ⟨files.nextFile⟩ .empty false)).node? location =
        files.node? location := by
      rw [Files.node?_put (by simp), if_neg (Ne.symm hne)]
    exact h hkept.symm
  · exact absurd rfl h

/-- With these files and this log, all that the submission is found to leave is a file of this name, if that is
what its program makes. -/
structure CanLeave (pipeline : Pipeline) (submission : Submission) (log : ExecuteLog)
    (files : Files) (name : RawText) : Prop where
  before : Provided pipeline submission files
  after : Provided pipeline submission
    (leave (pipeline.recipe.outputDirectory submission) name files)
  holds : log.Holds (Bytes.ofText "") files
  kept : log.Holds (Bytes.ofText "")
    (leave (pipeline.recipe.outputDirectory submission) name files)
  nothing : Artifact.candidates files (pipeline.recipe.outputDirectory submission)
    pipeline.artifactSuffix = []
  found : Artifact.candidates (leave (pipeline.recipe.outputDirectory submission) name files)
    (pipeline.recipe.outputDirectory submission) pipeline.artifactSuffix = [name]

theorem differIn_onItsOwn (pipeline : Pipeline) (submission : Submission) (log : ExecuteLog)
    (files : Files) (name : RawText) (ending : Ending) :
    (onItsOwn pipeline submission log files id ending).DifferIn submission
      (onItsOwn pipeline submission log files
        (leave (pipeline.recipe.outputDirectory submission) name) ending) where
  setting := ⟨rfl, rfl, rfl, rfl, rfl⟩
  calls := by
    intro call files memory hcall
    have hother : call ≠ pipeline.runCall submission := hcall
    simp only [onItsOwn, staged, if_neg hother]
  answers := by
    intro call files memory
    simp only [onItsOwn, staged]
    split
    · exact ⟨rfl, rfl⟩
    · split <;> exact ⟨rfl, rfl⟩
  leaves := by
    intro call files memory location hne
    simp only [onItsOwn, staged] at hne
    split at hne
    · exact absurd rfl hne
    split at hne
    · next hcall =>
      obtain ⟨above, habove, hlocation⟩ := node?_leave hne
      subst hcall
      exact ⟨above, name, habove, hlocation⟩
    · exact absurd rfl hne

/-- What the log of a batch tells of the others, if only one submission was reported. -/
theorem Occasion.Fresh.faithful_iff {occasion : Occasion ρ} {outcome : Outcome}
    (h : occasion.Fresh) (hreports : occasion.reports = [(submission, outcome)]) :
    (Record.ofOutcome submission.label outcome).Faithful ↔
      ∃ tags, occasion.tags = .ok tags ∧
        ∀ other, other ≠ submission.label → tags.find? other = none := by
  have htags := h.tags_eq
  have hline : Record.linesOf (recordsOf [(submission, outcome)]) =
      (Record.ofOutcome submission.label outcome).text ++ "\n" := by
    rw [recordsOf, List.map_singleton, Record.linesOf_cons]
    exact String.append_empty
  rw [hreports, hline] at htags
  rw [Record.faithful_iff_find?_eq_none]
  constructor
  · intro hnone
    exact ⟨_, htags, hnone⟩
  · rintro ⟨tags, heq, hnone⟩
    rw [htags] at heq
    rw [Except.ok.inj heq]
    exact hnone

theorem CanLeave.variants {log : ExecuteLog} {files : Files} {name : RawText}
    (h : CanLeave pipeline submission log files name) (hname : allowed name) :
    ∃ left right : Occasion Bool, Variants pipeline submission allowed left right ∧
      (∃ directory candidates,
        left.reports = [(submission, .artifactPathError directory candidates)]) ∧
      right.reports = [(submission, .artifactMismatch (pipeline.comparator.command
        ((pipeline.recipe.outputDirectory submission).join ⟨name⟩)))] := by
  let change := leave (pipeline.recipe.outputDirectory submission) name
  let left := onItsOwn pipeline submission log files id (.exited 1)
  let right := onItsOwn pipeline submission log files change (.exited 1)
  obtain ⟨problem, hproblem⟩ := Artifact.locate_of_candidates_nil h.nothing
  have hlocated := Artifact.locate_of_candidates_singleton h.found
  have hrunLeft := run_staged id (.exited 1) h.before
  have hrunRight := run_staged change (.exited 1) h.before
  rw [id, hproblem] at hrunLeft
  rw [hlocated] at hrunRight
  obtain ⟨hfreshLeft, hreportsLeft, hleavesLeft⟩ := fresh_onItsOwn id (.exited 1) h.before h.before
    h.holds h.holds (congrArg Dispatcher.reported? hrunLeft)
  obtain ⟨hfreshRight, hreportsRight, hleavesRight⟩ := fresh_onItsOwn change (.exited 1) h.before
    h.after h.holds h.kept (congrArg Dispatcher.reported? hrunRight)
  refine ⟨left, right, ?_, ⟨_, _, hreportsLeft⟩, hreportsRight⟩
  refine
    { pipeline_eq := rfl
      differIn := differIn_onItsOwn pipeline submission log files name (.exited 1)
      alone := fun other hother _ => List.mem_singleton.mp hother
      fresh := ?_
      leaves := ?_
      others := ?_ }
  · intro occasion hoccasion
    rcases List.mem_cons.mp hoccasion with rfl | hoccasion
    · exact hfreshLeft
    · obtain rfl := List.mem_singleton.mp hoccasion
      exact hfreshRight
  · intro occasion hoccasion entry hentry found hfound
    rcases List.mem_cons.mp hoccasion with rfl | hoccasion
    · have hfiles := hleavesLeft entry hentry _ _ hfound
      rw [id, or_self, h.nothing] at hfiles
      cases hfiles
    · obtain rfl := List.mem_singleton.mp hoccasion
      have hfiles := hleavesRight entry hentry _ _ hfound
      rw [h.nothing, h.found] at hfiles
      rcases hfiles with hnone | hone
      · cases hnone
      · rw [List.mem_singleton.mp hone]
        exact hname
  · rw [hreportsLeft, hreportsRight]
    simp

/-- A submission can change what the log says of the others exactly if it can leave a name that is not tame. -/
theorem unforgeable_iff_tame
    (hlabel : ']' ∉ submission.label.toList ∧ '\n' ∉ submission.label.toList)
    (hbuild : '\n' ∉ pipeline.recipe.build.text.toList)
    (hrun : '\n' ∉ pipeline.recipe.run.text.toList)
    (hleave : ∀ name, allowed name →
      ∃ log files, CanLeave pipeline submission log files name) :
    Unforgeable pipeline submission allowed ↔
      ∀ name, allowed name → Tame pipeline submission name := by
  constructor
  · intro hunforgeable name hname
    obtain ⟨log, files, hcan⟩ := hleave name hname
    obtain ⟨left, right, hvariants, ⟨directory, candidates, hleft⟩, hright⟩ :=
      hcan.variants hname
    obtain ⟨leftTags, rightTags, hleftTags, hrightTags, hsame⟩ :=
      hunforgeable Bool left right hvariants
    have hfreshLeft := hvariants.fresh left (List.mem_cons_self ..)
    have hfreshRight := hvariants.fresh right (.tail _ (List.mem_singleton_self right))
    have hfaithfulLeft : (Record.ofOutcome submission.label
        (.artifactPathError directory candidates)).Faithful :=
      Record.faithful_of_isLine ⟨hlabel.1, hlabel.2, fun _ hcommand => nomatch hcommand⟩
    obtain ⟨tags, htags, hnone⟩ := (hfreshLeft.faithful_iff hleft).mp hfaithfulLeft
    rw [hleftTags] at htags
    obtain rfl := Except.ok.inj htags
    have hfaithfulRight := (hfreshRight.faithful_iff hright).mpr
      ⟨rightTags, hrightTags, fun other hne => (hsame other hne).symm.trans (hnone other hne)⟩
    exact (Record.faithful_iff_afterBreaks hlabel rfl).mp hfaithfulRight
  · intro htame ρ left right hvariants
    have hguarded := hvariants.guarded hlabel hbuild hrun htame
    exact find?_tags_eq (hvariants.fresh left (List.mem_cons_self ..))
      (hvariants.fresh right (.tail _ (List.mem_singleton_self right)))
      (hguarded left (List.mem_cons_self ..))
      (hguarded right (.tail _ (List.mem_singleton_self right))) hvariants.others

/-! ### Names with line breaks -/

def forgeryPipeline : Pipeline :=
  { recipe :=
      { clean := ⟨"make", ["clean"]⟩
        build := ⟨"make", ["bin/paster"]⟩
        run := ⟨"./paster", []⟩
        outputSubdirectory := ⟨"bin"⟩
        runLimit := ⟨5⟩ }
    artifactSuffix := ".png"
    comparator := { program := "diff", reference := ⟨"/reference.png"⟩, limit := ⟨5⟩ } }

def forger : Submission := .ofRoot "a" ⟨"/a"⟩

/-- A name with a line in it that is about somebody else. -/
def forgedName : RawText := "x\nSuccess: [b] \"y.png"

def forgeryLog : ExecuteLog := ⟨⟨"/out/execute_log_k.txt"⟩, ⟨0⟩⟩

def forgeryStart : World Unit := (attach ⟨"/out"⟩ "k" (.start (Files.bare []) ())).2

theorem holds_forgery : forgeryLog.Holds (Bytes.ofText "") forgeryStart.files := by
  have hnumbered : (World.start (Files.bare []) ()).files.Numbered := by
    constructor <;> intro entry hentry <;> cases hentry
  have hlog : (attach ⟨"/out"⟩ "k" (World.start (Files.bare []) ())).1 = .ok forgeryLog := by
    decide
  have htext : forgeryStart.files.readText forgeryStart.files.directory forgeryLog.path = .ok "" := by
    decide
  exact holds_attach_of_readText hnumbered (Prod.ext hlog rfl) htext

def forgeryFiles : Files := (forgeryStart.files.ensureDirectory [] ⟨"/a/bin"⟩).2

theorem canLeave_forger {name : RawText}
    (hafter : Provided forgeryPipeline forger (leave ⟨"/a/bin"⟩ name forgeryFiles))
    (hkept : forgeryLog.Undisturbed forgeryFiles (leave ⟨"/a/bin"⟩ name forgeryFiles))
    (hfound : Artifact.candidates (leave ⟨"/a/bin"⟩ name forgeryFiles) ⟨"/a/bin"⟩ ".png" = [name]) :
    CanLeave forgeryPipeline forger forgeryLog forgeryFiles name where
  before := by decide
  after := hafter
  holds := holds_forgery.ensureDirectory [] ⟨"/a/bin"⟩
  kept := hkept.holds (holds_forgery.ensureDirectory [] ⟨"/a/bin"⟩)
  nothing := by decide
  found := hfound

/-- A line break alone does no harm, but a line about somebody else does. -/
theorem unforgeable_iff_tame_forger :
    (∀ name ∈ (["y.png", "x\ny.png", forgedName] : List RawText),
        ∃ log files, CanLeave forgeryPipeline forger log files name) ∧
      Unforgeable forgeryPipeline forger (· ∈ (["y.png", "x\ny.png"] : List RawText)) ∧
      ¬ Unforgeable forgeryPipeline forger (· ∈ (["y.png", forgedName] : List RawText)) := by
  have hcan : ∀ name ∈ (["y.png", "x\ny.png", forgedName] : List RawText),
      ∃ log files, CanLeave forgeryPipeline forger log files name := by
    intro name hname
    refine ⟨forgeryLog, forgeryFiles, ?_⟩
    have hfacts : ∀ name ∈ (["y.png", "x\ny.png", forgedName] : List RawText),
        Provided forgeryPipeline forger (leave ⟨"/a/bin"⟩ name forgeryFiles) ∧
          forgeryLog.Undisturbed forgeryFiles (leave ⟨"/a/bin"⟩ name forgeryFiles) ∧
          Artifact.candidates (leave ⟨"/a/bin"⟩ name forgeryFiles) ⟨"/a/bin"⟩ ".png" = [name] := by
      decide
    obtain ⟨hafter, hkept, hfound⟩ := hfacts name hname
    exact canLeave_forger hafter hkept hfound
  have htame : ∀ name ∈ (["y.png", "x\ny.png"] : List RawText), Tame forgeryPipeline forger name := by
    decide
  have hnot : ¬ ∀ name ∈ (["y.png", forgedName] : List RawText), Tame forgeryPipeline forger name := by
    decide
  refine ⟨hcan, ?_, ?_⟩
  · refine (unforgeable_iff_tame (by decide) (by decide) (by decide)
      fun name hname => hcan name ?_).mpr htame
    simp only [List.mem_cons, List.not_mem_nil, or_false] at hname ⊢
    rcases hname with rfl | rfl
    · exact .inl rfl
    · exact .inr (.inl rfl)
  · refine mt (unforgeable_iff_tame (by decide) (by decide) (by decide)
      fun name hname => hcan name ?_).mp hnot
    simp only [List.mem_cons, List.not_mem_nil, or_false] at hname ⊢
    rcases hname with rfl | rfl
    · exact .inl rfl
    · exact .inr (.inr rfl)

/-- The forger leaves a file of this name, which is not the one wanted. Nobody else compiles. -/
def forgeryRunner (name : RawText) : Runner Unit := fun call files memory =>
  if call = forgeryPipeline.runCall forger then
    (.ok (.exited 0), leave call.directory name files, memory)
  else (.ok (.exited (if call.directory = forger.root then 0 else 1)), files, memory)

def forgery (name : RawText) : Occasion Unit :=
  { dispatcher := { pipeline := forgeryPipeline, jobs := 1 }
    runner := forgeryRunner name
    schedule := .prompt
    submissions := [.ofRoot "b" ⟨"/b"⟩, forger]
    log := forgeryLog
    world := forgeryStart }

def forgeryDigest (name : RawText) : Digest :=
  { stop := none
    spared := true
    reports := [(.ofRoot "b" ⟨"/b"⟩, .compileFailure ⟨"make", ["bin/paster"]⟩),
      (forger, .artifactMismatch ⟨"diff", ["/reference.png", "/a/bin/" ++ name.lossy]⟩)]
    names := [(forger, name)] }

theorem digest_forgery : ∀ name ∈ (["y.png", forgedName] : List RawText),
    (forgery name).digest 40 = some (forgeryDigest name) := by
  decide

theorem fresh_forgery {name : RawText} (h : (forgery name).digest 40 = some (forgeryDigest name)) :
    (forgery name).Fresh := by
  obtain ⟨hstop, hspared, -, -⟩ := Occasion.of_digest h rfl
  exact ⟨holds_forgery, hspared, hstop⟩

theorem tags_forgery {name : RawText} (h : (forgery name).digest 40 = some (forgeryDigest name)) :
    (forgery name).tags =
      .ok (Record.verdicts (Record.linesOf (recordsOf (forgeryDigest name).reports))) := by
  obtain ⟨-, -, hreports, -⟩ := Occasion.of_digest h rfl
  rw [(fresh_forgery h).tags_eq, hreports]

theorem differIn_forgery (first second : RawText) :
    Occasion.DifferIn forger (forgery first) (forgery second) where
  setting := ⟨rfl, rfl, rfl, rfl, rfl⟩
  calls := by
    intro call files memory hcall
    have hother : call ≠ forgeryPipeline.runCall forger := hcall
    simp only [forgery, forgeryRunner, if_neg hother]
  answers := by
    intro call files memory
    dsimp only [forgery, forgeryRunner]
    split <;> exact ⟨rfl, rfl⟩
  leaves := by
    intro call files memory location hne
    simp only [forgery, forgeryRunner] at hne
    split at hne
    · by_cases hfirst : files.node? location = (leave call.directory first files).node? location
      · obtain ⟨above, habove, hlocation⟩ := node?_leave (hfirst ▸ hne)
        exact ⟨above, second, habove, hlocation⟩
      · obtain ⟨above, habove, hlocation⟩ := node?_leave hfirst
        exact ⟨above, first, habove, hlocation⟩
    · exact absurd rfl hne

theorem candidates_forgery {name found : RawText} {submission : Submission}
    (h : (forgery name).digest 40 = some (forgeryDigest name))
    {entry : Batch Submission (Except Failure Outcome) ResultSet Unit × Move}
    (hentry : entry ∈ (forgery name).history)
    (hfound : (submission, found) ∈ Dispatcher.candidates ".png" entry) : found = name := by
  obtain ⟨-, -, -, hnames⟩ := Occasion.of_digest h rfl
  have hmem : (submission, found) ∈ (forgery name).history.flatMap
      (Dispatcher.candidates (forgery name).dispatcher.pipeline.artifactSuffix) :=
    List.mem_flatMap.mpr ⟨entry, hentry, hfound⟩
  rw [hnames] at hmem
  exact congrArg Prod.snd (List.mem_singleton.mp hmem)

theorem variants_forgery {first second : RawText}
    (hfirst : (forgery first).digest 40 = some (forgeryDigest first))
    (hsecond : (forgery second).digest 40 = some (forgeryDigest second)) :
    Variants forgeryPipeline forger (· ∈ [first, second]) (forgery first) (forgery second) where
  pipeline_eq := rfl
  differIn := differIn_forgery first second
  alone := show ∀ other ∈ [Submission.ofRoot "b" ⟨"/b"⟩, forger],
    other.label = forger.label → other = forger by decide
  fresh := by
    intro occasion hoccasion
    rcases List.mem_cons.mp hoccasion with rfl | hoccasion
    · exact fresh_forgery hfirst
    · obtain rfl := List.mem_singleton.mp hoccasion
      exact fresh_forgery hsecond
  leaves := by
    intro occasion hoccasion entry hentry name hname
    rcases List.mem_cons.mp hoccasion with rfl | hoccasion
    · rw [candidates_forgery hfirst hentry hname]
      exact List.mem_cons_self ..
    · obtain rfl := List.mem_singleton.mp hoccasion
      rw [candidates_forgery hsecond hentry hname]
      exact .tail _ (List.mem_singleton_self second)
  others := by
    rw [(Occasion.of_digest hfirst rfl).2.2.1, (Occasion.of_digest hsecond rfl).2.2.1]
    rfl

/-- A name with a line break in it has the log say of somebody else what was never reported. -/
theorem forged :
    (∀ submission ∈ (forgery "y.png").submissions,
        ']' ∉ submission.label.toList ∧ '\n' ∉ submission.label.toList) ∧
      (∀ command ∈ [forgeryPipeline.recipe.clean, forgeryPipeline.recipe.build,
          forgeryPipeline.recipe.run, forgeryPipeline.comparator.command ⟨""⟩],
        '\n' ∉ command.text.toList) ∧
      Variants forgeryPipeline forger (· ∈ (["y.png", forgedName] : List RawText))
        (forgery "y.png") (forgery forgedName) ∧
      ∃ leftTags rightTags, (forgery "y.png").tags = .ok leftTags ∧
        (forgery forgedName).tags = .ok rightTags ∧
        leftTags.find? "b" = some .compileFailure ∧ rightTags.find? "b" = some .success := by
  have hplain := digest_forgery "y.png" (by simp)
  have hforged := digest_forgery forgedName (by simp)
  refine ⟨by decide, by decide, variants_forgery hplain hforged, _, _,
    tags_forgery hplain, tags_forgery hforged, ?_, ?_⟩
  · decide
  · decide +kernel

end ExecuteLog

end Assay
