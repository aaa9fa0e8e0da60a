import Assay.Proofs.Pipeline.Launch
import Assay.Proofs.Pipeline.StageOrder

/-!
# What success means

The pipeline itself never looks into an artifact: it hands two paths to a program and goes by the exit status. If
that program compares bytes, success means what it should, as far as the paths lead where they are shown to lead: an
argument is a text, and a name need not be one. The program finds its arguments from a directory of its own, so this
rests on both paths being absolute, too.
-/

namespace Assay

/-- The comparator exits with zero where both of its arguments, taken from the directory it works in, lead to files
with the same bytes, and nowhere else. -/
def Comparator.ByteExact {ρ : Type} (comparator : Comparator) (runner : Runner ρ) : Prop :=
  ∀ (issue : Issue ρ) (candidate directory : Path) (left right : String) (location : Location),
    issue.call = comparator.call candidate directory →
    issue.call.command.arguments = [left, right] →
    issue.files.findDirectory issue.files.directory issue.call.directory = .ok location →
      (issue.answer runner = .ok (.exited 0) ↔
        ∃ bytes, issue.files.read location ⟨left⟩ = .ok bytes ∧
          issue.files.read location ⟨right⟩ = .ok bytes)

namespace Path

theorem isAbsolute_join_of_isAbsolute {base : Path} (h : base.isAbsolute = true) (other : Path) :
    (base.join other).isAbsolute = true := by
  by_cases hother : other.isAbsolute = true
  · rw [join, if_pos hother, hother]
  · rw [isAbsolute_join base (Bool.eq_false_iff.mpr hother), h]

/-- The path that a command is given for this one. -/
def asShown (path : Path) : Path := ⟨path.shown⟩

theorem asShown_eq_self {path : Path} (h : path.text.IsText) : path.asShown = path := mk_shown h

theorem isAbsolute_asShown {path : Path} (h : path.isAbsolute = true) : path.asShown.isAbsolute = true := by
  obtain ⟨rest, hrest⟩ := List.head?_eq_some_iff.mp (of_decide_eq_true h)
  have hshown : path.shown = String.ofList ['/'] ++ RawText.lossy ⟨rest⟩ := by
    have hcons := @RawText.lossy_cons_ascii '/' (by decide) rest
    rw [← hcons, shown]
    exact congrArg RawText.lossy (RawText.ext_bytes hrest)
  rw [asShown, hshown, RawText.ofText_append]
  exact decide_eq_true rfl

end Path

namespace Files

theorem read_of_isAbsolute {files : Files} {base : Location} {path : Path}
    (h : path.isAbsolute = true) (other : Location) : files.read base path = files.read other path := by
  rw [read, read, find, find, lookup_of_isAbsolute h other]

theorem listFiles_eq_ok_iff {files : Files} {base : Location} {path : Path} {names : List RawText} :
    files.listFiles base path = .ok names ↔
      ∃ location, files.openDirectory base path = .ok location ∧
        names = (files.names location).filter fun name => files.isFile base (path.join ⟨name⟩) := by
  unfold listFiles list
  cases files.openDirectory base path with
  | error fault => simp
  | ok location => simp [eq_comm]

end Files

namespace Pipeline

variable {ρ : Type} {attempt : Attempt ρ}

theorem compareResult_eq_success_iff (pipeline : Pipeline) {artifact : Path} {ending : Ending} :
    pipeline.compareResult artifact ending = .ok .success ↔ ending = .exited 0 := by
  cases ending with
  | exited status => by_cases hzero : status = 0 <;> simp [compareResult, hzero]
  | timedOut limit => simp [compareResult]
  | notLaunched program detail => simp [compareResult]

theorem buildProgress_ne_settled_success (pipeline : Pipeline) (ending : Ending) :
    pipeline.buildProgress ending ≠ .ok (.settled .success) := by
  cases ending with
  | exited status => by_cases hzero : status = 0 <;> simp [buildProgress, hzero]
  | timedOut limit => simp [buildProgress]
  | notLaunched program detail => simp [buildProgress]

theorem runProgress_ne_settled_success (pipeline : Pipeline) (ending : Ending) :
    pipeline.runProgress ending ≠ .settled .success := by
  cases ending with
  | exited status => by_cases hzero : status = 0 <;> simp [runProgress, hzero]
  | timedOut limit => simp [runProgress]
  | notLaunched program detail => simp [runProgress]

/-- Only a comparison that is called for in the end can make a success. -/
theorem Passage.success_iff {issues : List (Issue ρ)} {marks : List Event}
    {result : Except Panic (Except Failure Outcome)} (h : Passage attempt issues marks result) :
    result = .ok (.ok .success) ↔
      attempt.Ran ∧ ∃ artifact, attempt.located = .ok artifact ∧
        (attempt.compareIssue artifact).answer attempt.runner = .ok (.exited 0) := by
  constructor
  · intro hsuccess
    cases h with
    | buildSettled hprepared hbuild hjudged =>
        cases hsuccess
        exact absurd hjudged (attempt.pipeline.buildProgress_ne_settled_success _)
    | runSettled hbuilt hrun hjudged =>
        cases hsuccess
        exact absurd hjudged (attempt.pipeline.runProgress_ne_settled_success _)
    | @compared artifact ending hran hlocated hcompare =>
        have hending : ending = .exited 0 :=
          attempt.pipeline.compareResult_eq_success_iff.mp (Except.ok.inj hsuccess)
        rw [hending] at hcompare
        exact ⟨hran, artifact, hlocated, hcompare⟩
    | _ => cases hsuccess
  · rintro ⟨hran, artifact, hlocated, hcompare⟩
    rw [h.result_of_ran hran, Attempt.judged_of_located hlocated, hcompare]
    rfl

/-- The files, when the run has ended. -/
def Attempt.left (attempt : Attempt ρ) : Files := attempt.runIssue.filesAfter attempt.runner

/-- Of the files that are left where the run was, one has a name of the right kind. What is read under its path and
under that of the reference, both seen in one way, is the same. -/
def Attempt.LeavesCopy (attempt : Attempt ρ) (view : Path → Path) : Prop :=
  ∃ location name bytes,
    attempt.left.openDirectory attempt.left.directory attempt.directory = .ok location ∧
    ((attempt.left.names location).filter fun entry =>
      attempt.left.isFile attempt.left.directory (attempt.directory.join ⟨entry⟩) &&
        Artifact.hasSuffix attempt.pipeline.artifactSuffix entry) = [name] ∧
    attempt.left.read attempt.left.directory (view (attempt.directory.join ⟨name⟩)) = .ok bytes ∧
    attempt.left.read attempt.left.directory (view attempt.pipeline.comparator.reference) = .ok bytes

/-- What the comparator says about an artifact that was located is what the bytes say that are found where it is shown
to be. -/
theorem answer_compareIssue_iff (hexact : attempt.pipeline.comparator.ByteExact attempt.runner)
    (hreference : attempt.pipeline.comparator.reference.isAbsolute = true) {artifact : Path}
    (hartifact : artifact.isAbsolute = true) {files : Files} (hfiles : files = attempt.left)
    {location : Location} (hdirectory : files.openDirectory files.directory attempt.directory = .ok location) :
    (attempt.compareIssue artifact).answer attempt.runner = .ok (.exited 0) ↔
      ∃ bytes, files.read files.directory artifact.asShown = .ok bytes ∧
        files.read files.directory attempt.pipeline.comparator.reference.asShown = .ok bytes := by
  subst hfiles
  have hanswer := hexact (attempt.compareIssue artifact) artifact attempt.directory
    attempt.pipeline.comparator.reference.shown artifact.shown location rfl rfl
    (Files.findDirectory_of_openDirectory hdirectory)
  rw [Files.read_of_isAbsolute (Path.isAbsolute_asShown hartifact) location,
    Files.read_of_isAbsolute (Path.isAbsolute_asShown hreference) location]
  exact hanswer.trans (exists_congr fun bytes => and_comm)

/-- An artifact that is found and compares equal is the one file of its kind, and has the bytes of the reference. -/
theorem located_same_iff (attempt : Attempt ρ)
    (hexact : attempt.pipeline.comparator.ByteExact attempt.runner)
    (hroot : attempt.submission.root.isAbsolute = true)
    (hreference : attempt.pipeline.comparator.reference.isAbsolute = true) :
    (∃ artifact, attempt.located = .ok artifact ∧
      (attempt.compareIssue artifact).answer attempt.runner = .ok (.exited 0)) ↔
      attempt.LeavesCopy Path.asShown := by
  obtain ⟨files, hfiles⟩ : ∃ files, files = attempt.left := ⟨_, rfl⟩
  have habsolute (name : RawText) : (attempt.directory.join ⟨name⟩).isAbsolute = true :=
    Path.isAbsolute_join_of_isAbsolute (Path.isAbsolute_join_of_isAbsolute hroot _) _
  have hfilter (location : Location) : ((files.names location).filter fun entry =>
      files.isFile files.directory (attempt.directory.join ⟨entry⟩) &&
        Artifact.hasSuffix attempt.pipeline.artifactSuffix entry) =
      ((files.names location).filter fun entry =>
        files.isFile files.directory (attempt.directory.join ⟨entry⟩)).filter
          (Artifact.hasSuffix attempt.pipeline.artifactSuffix) := by
    rw [List.filter_filter]
    simp only [Bool.and_comm]
  rw [Attempt.LeavesCopy, ← hfiles]
  constructor
  · rintro ⟨artifact, hlocated, hcompare⟩
    obtain ⟨name, ⟨names, hnames, honly⟩, rfl⟩ := located_eq_ok_iff.mp hlocated
    rw [← Attempt.left, ← hfiles] at hnames
    obtain ⟨location, hdirectory, rfl⟩ := Files.listFiles_eq_ok_iff.mp hnames
    obtain ⟨bytes, hartifact, hsame⟩ :=
      (answer_compareIssue_iff hexact hreference (habsolute name) hfiles hdirectory).mp hcompare
    exact ⟨location, name, bytes, hdirectory, (hfilter location).trans honly, hartifact, hsame⟩
  · rintro ⟨location, name, bytes, hdirectory, honly, hartifact, hsame⟩
    have hnames := Files.listFiles_eq_ok_iff.mpr ⟨location, hdirectory, rfl⟩
    rw [hfilter location] at honly
    refine ⟨attempt.directory.join ⟨name⟩, ?_, ?_⟩
    · rw [hfiles] at hnames honly
      exact located_eq_ok_iff.mpr ⟨name, ⟨_, hnames, honly⟩, rfl⟩
    · exact (answer_compareIssue_iff hexact hreference (habsolute name) hfiles hdirectory).mpr
        ⟨bytes, hartifact, hsame⟩

/-- Where the reference, the directory and every name that could be that of the artifact are texts, a path is shown as
what it is. -/
structure Attempt.Spelled (attempt : Attempt ρ) : Prop where
  reference : attempt.pipeline.comparator.reference.text.IsText
  directory : attempt.directory.text.IsText
  names : ∀ location name, attempt.left.openDirectory attempt.left.directory attempt.directory = .ok location →
    name ∈ attempt.left.names location → Artifact.hasSuffix attempt.pipeline.artifactSuffix name = true →
      name.IsText

theorem Attempt.Spelled.leavesCopy_iff (h : attempt.Spelled) :
    attempt.LeavesCopy Path.asShown ↔ attempt.LeavesCopy id := by
  unfold LeavesCopy
  rw [Path.asShown_eq_self h.reference, id]
  refine exists_congr fun location => exists_congr fun name => exists_congr fun bytes =>
    and_congr_right fun hdirectory => and_congr_right fun honly => ?_
  have hname : name.IsText := by
    obtain ⟨hmem, hkind⟩ := List.mem_filter.mp (honly ▸ List.mem_singleton_self name)
    exact h.names location name hdirectory hmem (Bool.and_eq_true_iff.mp hkind).2
  rw [Path.asShown_eq_self (Path.isText_join h.directory hname), id]

variable {pipeline : Pipeline} {submission : Submission} {runner : Runner ρ}

/-- Success is what a submission comes to that builds, runs and leaves one file of the right name with the bytes of
the reference, and no other comes to it, if names are texts. If not, what counts is which bytes there are where the
paths are shown to lead. -/
theorem process_success_iff (hexact : pipeline.comparator.ByteExact runner)
    (hroot : submission.root.isAbsolute = true)
    (hreference : pipeline.comparator.reference.isAbsolute = true) (world : World ρ) :
    let attempt : Attempt ρ := ⟨pipeline, submission, runner, world.files, world.memory⟩
    (((pipeline.process submission).run runner world).1 = .ok (.ok .success) ↔
      attempt.Ran ∧ attempt.LeavesCopy Path.asShown) ∧
    (attempt.Spelled →
      (((pipeline.process submission).run runner world).1 = .ok (.ok .success) ↔
        attempt.Ran ∧ attempt.LeavesCopy id)) := by
  intro attempt
  have hpassage := passage_course attempt
  simp only [attempt, Attempt.course, Task.course_eq] at hpassage
  have hshown : ((pipeline.process submission).run runner world).1 = .ok (.ok .success) ↔
      attempt.Ran ∧ attempt.LeavesCopy Path.asShown := by
    rw [hpassage.success_iff]
    exact and_congr_right fun _ => located_same_iff attempt hexact hroot hreference
  exact ⟨hshown, fun hspelled => hshown.trans (and_congr_right fun _ => hspelled.leavesCopy_iff)⟩

/-- A comparison of bytes, for those who have two arguments to read, and a program that copies the reference to where
its artifact should be. -/
def copier (artifact : RawText) : Runner Unit := fun call files memory =>
  match call.command.program, call.command.arguments with
  | "cmp", [left, right] =>
    match files.findDirectory files.directory call.directory with
    | .error _ => (.ok (.notLaunched "cmp" "no such directory"), files, memory)
    | .ok location =>
      match files.read location ⟨left⟩, files.read location ⟨right⟩ with
      | .ok first, .ok second => (.ok (.exited (if first = second then 0 else 1)), files, memory)
      | _, _ => (.ok (.exited 2), files, memory)
  | "./paster", _ =>
    (.ok (.exited 0),
      files.put ["b", "bin", artifact]
        (.file ⟨1⟩ ((files.read [] ⟨"/reference.png"⟩).toOption.getD .empty) false),
      memory)
  | _, _ => (.ok (.exited 0), files, memory)

theorem byteExact_copier (artifact : RawText) : paster.comparator.ByteExact (copier artifact) := by
  rintro ⟨call, files, memory⟩ candidate directory left right location rfl harguments hdirectory
  have hprogram : (paster.comparator.call candidate directory).command.program = "cmp" := rfl
  dsimp only at harguments hdirectory ⊢
  simp only [Issue.answer, copier, hprogram, harguments, hdirectory]
  rcases files.read location ⟨left⟩ with fault | first <;>
    rcases files.read location ⟨right⟩ with fault | second
  · simp
  · simp
  · simp
  · by_cases hsame : first = second <;> simp [hsame, eq_comm]

/-- The reference, and a submission. -/
def copierStart : World Unit :=
  .start { Files.bare ["b"] with
    nodes := (Files.bare ["b"]).nodes.put ["reference.png"] (.file ⟨0⟩ (.ofText "png") false) } ()

def copying (artifact : RawText) : Attempt Unit :=
  ⟨paster, .ofRoot "b" ⟨"/b"⟩, copier artifact, copierStart.files, copierStart.memory⟩

/-- The copy is byte for byte what it is compared with, and it is the one file that is left. -/
theorem process_success_iff_copier :
    ((paster.process (.ofRoot "b" ⟨"/b"⟩)).run (copier "output.png") copierStart).1 = .ok (.ok .success) ∧
      (copying "output.png").Spelled ∧ (copying "output.png").Ran ∧ (copying "output.png").LeavesCopy id := by
  have hsuccess : ((paster.process (.ofRoot "b" ⟨"/b"⟩)).run (copier "output.png") copierStart).1 =
      .ok (.ok .success) := by
    decide
  have hspelled : (copying "output.png").Spelled := by
    refine ⟨by decide, by decide, fun location name hdirectory hname _ => ?_⟩
    have hopened : (copying "output.png").left.openDirectory (copying "output.png").left.directory
        (copying "output.png").directory = .ok ["b", "bin"] := by
      decide
    obtain rfl : (["b", "bin"] : Location) = location := Except.ok.inj (hopened.symm.trans hdirectory)
    have hnames : ∀ name ∈ (copying "output.png").left.names ["b", "bin"], name.IsText := by decide
    exact hnames name hname
  have hiff := (process_success_iff (byteExact_copier "output.png") (by decide) (by decide) copierStart).2 hspelled
  exact ⟨hsuccess, hspelled, hiff.mp hsuccess⟩

/-- A copy under a name that is no text, which is compared with nothing. -/
theorem mismatch_of_copy :
    paster.comparator.ByteExact (copier RawText.odd) ∧
      (copying RawText.odd).Ran ∧ (copying RawText.odd).LeavesCopy id ∧
      ((paster.process (.ofRoot "b" ⟨"/b"⟩)).run (copier RawText.odd) copierStart).1 =
        .ok (.ok (.artifactMismatch ⟨"cmp", ["/reference.png", "/b/bin/\uFFFD.png"]⟩)) := by
  have hprepared : (copying RawText.odd).Prepared := ⟨⟨.exited 0, by decide⟩, by decide⟩
  have hran : (copying RawText.odd).Ran := ⟨⟨hprepared, by decide⟩, by decide⟩
  exact ⟨byteExact_copier RawText.odd, hran,
    ⟨["b", "bin"], RawText.odd, .ofText "png", by decide, by decide, by decide,
      by decide⟩, by decide⟩

end Pipeline

end Assay
