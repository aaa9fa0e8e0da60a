import Assay.Proofs.Dispatch.Once
import Assay.Proofs.Scoring.Sinks
import Assay.Proofs.Text.Order

/-!
# Exact streams, ordered reports

All references are scored, whatever the analyzer makes of the students. The stream of each of them ends up with
what was written for it, in the order of the students and of their parts, and its report comes in the order of the
labels.
-/

namespace Assay

variable {ρ : Type}

theorem Effect.run_of_panic {runner : Runner ρ} {effect : Effect} {world : World ρ} {panic : Panic}
    (h : (effect.perform runner world).1 = .error panic) :
    ∃ issue, Moment.issue? ⟨effect, world⟩ = some issue ∧ issue.answer runner = .error panic := by
  cases effect with
  | run call => exact ⟨_, rfl, h⟩
  | ensureDirectory path => cases h
  | listFiles path => cases h
  | openStream path =>
      rcases hopen : world.files.openStream world.files.directory path .truncate with
        fault | ⟨stream, files⟩ <;>
        simp only [Effect.perform, hopen] at h <;> cases h
  | note event => cases h

theorem Pool.worker_of_collectedJobs {ι α : Type} {pool : Pool ι α} {jobs : List ι} {index : Nat}
    {job : ι}
    (hcollected : pool.collectedJobs = pool.workers.map Worker.job)
    (hjobs : pool.workers.map Worker.job = jobs) (hjob : jobs[index]? = some job) :
    pool.workers[index]? = some ⟨job, .collected⟩ := by
  have hlength := congrArg List.length hcollected
  rw [collectedJobs, List.length_map, List.length_map] at hlength
  have hall := List.length_filter_eq_length_iff.mp hlength
  rw [← hjobs, List.getElem?_map] at hjob
  obtain ⟨⟨found, phase⟩, hworker, rfl⟩ := Option.map_eq_some_iff.mp hjob
  have hphase := hall _ (List.mem_of_getElem? hworker)
  cases phase with
  | collected => exact hworker
  | _ => cases hphase

namespace Scorer

variable {scorer : Scorer} {references students : List Submission} {place : Submission → Location}
  {runner : Runner ρ} {wrote : Issue ρ → Bytes}
  {past : List (Batch Submission (Except Failure GroupReport) (List GroupReport) ρ × Move)}
  {batch next last : Batch Submission (Except Failure GroupReport) (List GroupReport) ρ} {move : Move}

/-- The group was scored in these moments, and this is its report. -/
def Through (scorer : Scorer) (students : List Submission) (reference : Submission)
    (runner : Runner ρ) (moments : List (Moment ρ)) (report : GroupReport) : Prop :=
  moments ≠ [] ∧
    ∃ stream, scorer.Scored students reference runner stream (moments.filterMap Moment.issue?) report

theorem Through.reference_eq {reference : Submission} {moments : List (Moment ρ)}
    {report : GroupReport} (h : scorer.Through students reference runner moments report) :
    report.reference = reference.label := by
  obtain ⟨-, stream, hscored⟩ := h
  exact hscored.reference_eq

theorem Underway.through_of_leads
    (h : scorer.Underway references students place runner wrote past batch) {index : Nat}
    {reference : Submission} {result : Except Failure GroupReport}
    (hleads : (scorer.scoreGroup students reference).Leads runner (Batch.doings index past)
      (.done result)) :
    ∃ report, result = .ok report ∧
      scorer.Through students reference runner (Batch.doings index past) report := by
  rcases scored_of_leads hleads fun issue hissue => (h.behaved index issue hissue).launched with
    ⟨world, fault, hmoments, hopen, -⟩ | ⟨stream, report, rfl, hscored⟩
  · have hopened := h.flowing.opened index (by rw [hmoments]; exact List.cons_ne_nil _ _)
    rw [hmoments] at hopened
    simp [sunk, Moment.stream?, hopen, Except.toOption] at hopened
  · refine ⟨report, rfl, fun hnone => ?_, stream, hscored⟩
    rw [hnone, scoreGroup_eq] at hleads
    cases hleads

theorem Underway.finished (h : scorer.Underway references students place runner wrote past batch)
    {index : Nat} {reference : Submission} {result : Except Panic (Except Failure GroupReport)}
    (hworker : batch.pool.workers[index]? = some ⟨reference, .finished result⟩) :
    ∃ report, result = .ok (.ok report) ∧
      scorer.Through students reference runner (Batch.doings index past) report := by
  have hled := h.led index reference _ hworker
  cases result with
  | error panic =>
      obtain ⟨moment, hmoment, hpanic⟩ := hled
      obtain ⟨issue, hissue, hanswer⟩ := Effect.run_of_panic hpanic
      obtain ⟨ending, hending⟩ :=
        (h.behaved index issue (List.mem_filterMap.mpr ⟨moment, hmoment, hissue⟩)).returned
      have hboth := hanswer.symm.trans hending
      cases hboth
  | ok result =>
      obtain ⟨report, rfl, hthrough⟩ := h.through_of_leads hled
      exact ⟨report, rfl, hthrough⟩

/-- What has been gathered are the reports of those who are done, one for each. -/
structure Reported (scorer : Scorer) (students : List Submission) (runner : Runner ρ)
    (past : List (Batch Submission (Except Failure GroupReport) (List GroupReport) ρ × Move))
    (batch : Batch Submission (Except Failure GroupReport) (List GroupReport) ρ) : Prop where
  collected : ∀ (index : Nat) (reference : Submission),
    batch.pool.workers[index]? = some ⟨reference, .collected⟩ →
      ∃ report ∈ batch.gathered,
        scorer.Through students reference runner (Batch.doings index past) report
  gathered : (batch.gathered.map GroupReport.reference).Perm
    (batch.pool.collectedJobs.map Submission.label)

/-- A move after which a worker is not done yet leaves the reports as they are. -/
theorem Reported.keep (h : scorer.Reported students runner past batch) {index : Nat}
    {job : Submission} {old : Phase (Except Failure GroupReport)}
    (hworker : batch.pool.workers[index]? = some ⟨job, old⟩) (hold : old.isCollected = false)
    (new : Phase (Except Failure GroupReport)) (hnew : new.isCollected = false) (move : Move) :
    (∀ (other : Nat) (reference : Submission),
      (batch.pool.setPhase index new).workers[other]? = some ⟨reference, .collected⟩ →
        ∃ report ∈ batch.gathered, scorer.Through students reference runner
          (Batch.doings other (past ++ [(batch, move)])) report) ∧
      (batch.gathered.map GroupReport.reference).Perm
        ((batch.pool.setPhase index new).collectedJobs.map Submission.label) := by
  refine ⟨fun other reference hother => ?_, ?_⟩
  · rcases Pool.of_getElem?_setPhase hother with ⟨_, hphase, _⟩ | ⟨_, hbefore⟩
    · rw [← hphase] at hnew
      cases hnew
    · rw [Batch.doings_of_collected hbefore]
      exact h.collected other reference hbefore
  · have hjobs := Pool.collectedJobs_setPhase hworker hold new
    rw [hnew] at hjobs
    exact h.gathered.trans (hjobs.map Submission.label).symm

theorem Reported.step (h : scorer.Reported students runner past batch)
    (hunderway : scorer.Underway references students place runner wrote past batch)
    (hstep : Batch.Step runner (scorer.collect students.length) batch move next) :
    scorer.Reported students runner (past ++ [(batch, move)]) next := by
  cases hstep with
  | entered hworker hfree =>
      obtain ⟨hcollected, hgathered⟩ := h.keep hworker rfl (.active _) rfl (.enter _)
      exact ⟨hcollected, hgathered⟩
  | advanced hworker hperform =>
      obtain ⟨hcollected, hgathered⟩ := h.keep hworker rfl (.active _) rfl (.advance _)
      exact ⟨hcollected, hgathered⟩
  | panicked hworker hperform =>
      obtain ⟨hcollected, hgathered⟩ := h.keep hworker rfl (.finished _) rfl (.advance _)
      exact ⟨hcollected, hgathered⟩
  | ended hworker =>
      obtain ⟨hcollected, hgathered⟩ := h.keep hworker rfl (.finished _) rfl (.advance _)
      exact ⟨hcollected, hgathered⟩
  | @collected index job result gathered after hworker hcollect =>
      obtain ⟨-, report, rfl, rfl⟩ := files_of_take hcollect
      obtain ⟨found, hfound, hthrough⟩ := hunderway.finished hworker
      obtain rfl : report = found := Except.ok.inj (Except.ok.inj hfound)
      have hnone : Batch.doings index (past ++ [(batch, .collect index)]) =
          Batch.doings index past := by
        rw [Batch.doings_concat]
        exact List.append_nil _
      refine ⟨fun other reference hother => ?_, ?_⟩
      · rcases Pool.of_getElem?_setPhase hother with ⟨rfl, _, _, hbefore⟩ | ⟨_, hbefore⟩
        · rw [hworker] at hbefore
          cases hbefore
          rw [hnone]
          exact ⟨report, List.mem_append_right _ (List.mem_singleton_self _), hthrough⟩
        · obtain ⟨report, hmem, hthrough⟩ := h.collected other reference hbefore
          rw [Batch.doings_of_collected hbefore]
          exact ⟨report, List.mem_append_left _ hmem, hthrough⟩
      · have hjobs := (Pool.collectedJobs_setPhase hworker rfl .collected).map Submission.label
        rw [List.map_append, List.map_singleton, hthrough.reference_eq]
        calc
          batch.gathered.map GroupReport.reference ++ [job.label]
          _ |>.Perm (job.label :: batch.gathered.map GroupReport.reference) :=
            List.perm_append_singleton _ _
          _ |>.Perm (job.label :: batch.pool.collectedJobs.map Submission.label) :=
            h.gathered.cons _
          _ |>.Perm _ := hjobs.symm

theorem underway_start {world : World ρ} (hfresh : world.files.Fresh)
    (hawaits : ∀ reference ∈ references,
      world.files.Awaits (scorer.streamPath reference) (place reference)) :
    scorer.Underway references students place runner wrote []
      (scorer.start references students world) where
  toAfloat := afloat_start hfresh hawaits
  behaved _ _ hissue := nomatch hissue

theorem reported_start (references students : List Submission) (world : World ρ) :
    scorer.Reported students runner [] (scorer.start references students world) where
  collected index reference hworker := by
    obtain ⟨entry, _, heq⟩ := List.mem_map.mp (List.mem_of_getElem? hworker)
    cases heq
  gathered := by
    have hnone : (scorer.start references students world).pool.collectedJobs = [] :=
      Batch.collectedJobs_start ..
    rw [hnone]
    exact .refl []

/-- The scoring goes on as it has begun until there is nothing left to do. -/
theorem underway_of_trail {world : World ρ}
    (hapart : Apart references place) (hfresh : world.files.Fresh)
    (hawaits : ∀ reference ∈ references,
      world.files.Awaits (scorer.streamPath reference) (place reference))
    (htrail : Batch.Trail runner (scorer.collect students.length) (scorer.start references students world)
      past last)
    (hbehaves : ∀ index, ∀ issue ∈ Batch.issuesOf index past,
      scorer.Behaves references runner wrote issue) :
    scorer.Underway references students place runner wrote past last ∧
      scorer.Reported students runner past last := by
  -- A report is what a finished worker gives, so the reports cannot be followed without the workers.
  refine htrail.invariant (fun past batch =>
    scorer.Underway references students place runner wrote past batch ∧
      scorer.Reported students runner past batch) [] ⟨underway_start hfresh hawaits, reported_start ..⟩ ?_
  rintro before batch move next hentry ⟨hunderway, hreported⟩ hstep
  refine ⟨hunderway.step hapart hstep fun index moment issue hmoment hissue => ?_,
    hreported.step hunderway hstep⟩
  exact hbehaves index issue (Batch.mem_issuesOf hentry hmoment hissue)

/-- Nothing stops the scoring before everything is done. -/
theorem run_to_the_end {made : Files} {schedule : Schedule} {world : World ρ}
    (hmade : world.files.ensureDirectory world.files.directory scorer.outputDirectory = (.ok (), made))
    (hjobs : Pool.permits scorer.jobs ≤ Pool.maxPermits) (hapart : Apart references place)
    (hfresh : made.Fresh)
    (hawaits : ∀ reference ∈ references, made.Awaits (scorer.streamPath reference) (place reference))
    (hbehaves : ∀ index,
      ∀ issue ∈ Batch.issuesOf index (scorer.history references students runner schedule world),
        scorer.Behaves references runner wrote issue) :
    ∃ last, scorer.run runner schedule references students world = ⟨none, last⟩ ∧
      Batch.Trail runner (scorer.collect students.length)
        (scorer.start references students { world with files := made })
        (scorer.history references students runner schedule world) last ∧
      last.pool.moves = [] ∧
      scorer.Underway references students place runner wrote
        (scorer.history references students runner schedule world) last ∧
      scorer.Reported students runner (scorer.history references students runner schedule world)
        last := by
  obtain ⟨past, last, final, htrail, hclose, hhistory⟩ := Batch.trail_runFrom runner
    (scorer.collect students.length) schedule 0 (scorer.start references students { world with files := made })
  rw [run_eq hmade hjobs]
  rw [history_eq hmade hjobs, hhistory] at hbehaves ⊢
  have hbefore (index : Nat) : Batch.issuesOf index past ⊆ Batch.issuesOf index (past ++ final) := by
    rw [Batch.issuesOf, Batch.issuesOf, Batch.doings, Batch.doings, List.filterMap_append,
      List.filterMap_append]
    exact List.subset_append_left _ _
  obtain ⟨hunderway, hreported⟩ := underway_of_trail hapart hfresh hawaits htrail
    fun index issue hissue => hbehaves index issue (hbefore index hissue)
  generalize Batch.runFrom runner (scorer.collect students.length) schedule 0
    (scorer.start references students { world with files := made }) = result at hclose
  cases hclose with
  | exhausted hmoves =>
      rw [List.append_nil]
      exact ⟨last, rfl, htrail, hmoves, hunderway, hreported⟩
  | stopped hmove hmake =>
      obtain ⟨index, reference, result, -, hworker, hfails⟩ := Batch.collect_of_make_stopped hmake
      obtain ⟨report, rfl, -⟩ := hunderway.finished hworker
      cases hfails

theorem pairwise_reports {result : Result ρ}
    (hnodup : (result.batch.gathered.map GroupReport.reference).Nodup) :
    ((reports result).map GroupReport.reference).Pairwise (· < ·) :=
  Text.pairwise_mergeSort GroupReport.reference hnodup

theorem Flowing.read_eq {files : Files} (h : scorer.Flowing references place wrote past files)
    {index : Nat} {reference : Submission} (hreference : references[index]? = some reference)
    (hbegan : Batch.doings index past ≠ []) :
    files.read files.directory (scorer.streamPath reference) =
      .ok (written wrote (Batch.issuesOf index past)) := by
  obtain ⟨⟨stream, content⟩, hsunk⟩ := Option.isSome_iff_exists.mp (h.opened index hbegan)
  have hcontent : written wrote (Batch.issuesOf index past) = content := by
    obtain ⟨found, -, heq⟩ := Option.map_eq_some_iff.mp hsunk
    exact congrArg Prod.snd heq
  have hbears := h.bears index reference hreference
  rw [hsunk] at hbears
  rw [hcontent]
  exact Files.Carries.read_eq hbears

theorem exists_apart {made : Files} (hlabels : (references.map Submission.label).Nodup)
    (hslashless : ∀ reference ∈ references, '/' ∉ reference.label.toList)
    (hawaits : ∀ reference ∈ references,
      ∃ location, made.Awaits (scorer.streamPath reference) location) :
    ∃ place, Apart references place ∧
      ∀ reference ∈ references, made.Awaits (scorer.streamPath reference) (place reference) := by
  obtain ⟨place, hinjective, hplace⟩ := exists_places scorer made made.directory
  refine ⟨place, ⟨hslashless, fun left right leftReference rightReference hleft hright hne hsame => ?_⟩,
    fun reference hreference => ?_⟩
  · have hlabel := hinjective _ _ hsame
    have hleft' : (references.map Submission.label)[left]? = some leftReference.label := by
      rw [List.getElem?_map, hleft, Option.map_some]
    have hright' : (references.map Submission.label)[right]? = some leftReference.label := by
      rw [List.getElem?_map, hright, Option.map_some, hlabel]
    have hlength := (List.getElem?_eq_some_iff.mp hleft').1
    exact hne ((List.getElem?_inj hlength hlabels).mp (hleft'.trans hright'.symm))
  · obtain ⟨location, hlocation⟩ := hawaits reference hreference
    have hslash := hslashless reference hreference
    cases hlocation with
    | vacant hlookup =>
        obtain rfl := hplace reference _ hslash hlookup
        exact .vacant hlookup
    | plain hlookup hsole =>
        obtain rfl := hplace reference _ hslash hlookup
        exact .plain hlookup hsole

theorem calls_perm
    {start : Batch Submission (Except Failure GroupReport) (List GroupReport) ρ}
    (htrail : Batch.Trail runner (scorer.collect students.length) start past last)
    (hjobs : start.pool.workers.map Worker.job = references)
    (hcalls : ∀ index reference, references[index]? = some reference →
      ∃ stream, (Batch.issuesOf index past).map Issue.call = students.flatMap fun student =>
        scorer.rule.parts.map (scorer.call stream reference student)) :
    ((Batch.issued past).map fun issue => issue.call.command).Perm
      (references.flatMap fun reference => students.flatMap fun student =>
        scorer.rule.parts.map (scorer.rule.command reference student)) := by
  have hlength : ∀ entry ∈ past, entry.1.pool.workers.length = references.length := by
    intro entry hentry
    have hentry := congrArg List.length (htrail.jobs_eq.2 entry hentry)
    rw [hjobs, List.length_map] at hentry
    exact hentry
  -- The streams differ from group to group, so only the commands can be put side by side.
  have hcommands : ((List.range references.length).map fun index =>
      (Batch.issuesOf index past).map fun issue => issue.call.command) =
        references.map fun reference => students.flatMap fun student =>
          scorer.rule.parts.map (scorer.rule.command reference student) := by
    apply List.ext_getElem (by simp)
    intro index hleft hright
    have hindex : index < references.length := by simpa using hright
    obtain ⟨stream, hcalls⟩ := hcalls index references[index] (List.getElem?_eq_getElem hindex)
    have hcommands := congrArg (List.map Call.command) hcalls
    rw [List.map_map, List.map_flatMap] at hcommands
    simpa [Function.comp_def, call] using hcommands
  have hperm := (Batch.issued_perm hlength).map fun issue => issue.call.command
  rw [List.map_flatMap, List.flatMap_def, hcommands, ← List.flatMap_def] at hperm
  exact hperm

/-- However the groups take turns and whatever comes of the calls: everybody is scored in order, and the file of a
reference holds what was written to its stream, whatever it held before. -/
theorem streams_exact (scorer : Scorer) (runner : Runner ρ) (schedule : Schedule)
    (references students : List Submission) (world : World ρ) (made : Files)
    (wrote : Issue ρ → Bytes) (hlabels : (references.map Submission.label).Nodup)
    (hslashless : ∀ reference ∈ references, '/' ∉ reference.label.toList)
    (hjobs : Pool.permits scorer.jobs ≤ Pool.maxPermits)
    (hmade : world.files.ensureDirectory world.files.directory scorer.outputDirectory = (.ok (), made))
    (hfresh : world.files.Fresh)
    (hawaits : ∀ reference ∈ references,
      ∃ location, made.Awaits (scorer.streamPath reference) location)
    (hbehaves : ∀ index,
      ∀ issue ∈ Batch.issuesOf index (scorer.history references students runner schedule world),
        scorer.Behaves references runner wrote issue) :
    let result := scorer.run runner schedule references students world
    let history := scorer.history references students runner schedule world
    result.stop = none ∧
      ((reports result).map GroupReport.reference).Perm (references.map Submission.label) ∧
      ((reports result).map GroupReport.reference).Pairwise (· < ·) ∧
      ((Batch.issued history).map fun issue => issue.call.command).Perm
        (references.flatMap fun reference => students.flatMap fun student =>
          scorer.rule.parts.map (scorer.rule.command reference student)) ∧
      ∀ index reference, references[index]? = some reference →
        ∃ stream, ∃ report ∈ reports result,
          scorer.Scored students reference runner stream (Batch.issuesOf index history) report ∧
          (Batch.issuesOf index history).map Issue.call = (students.flatMap fun student =>
            scorer.rule.parts.map (scorer.call stream reference student)) ∧
          result.batch.world.files.read result.batch.world.files.directory
            (scorer.streamPath reference) = .ok (written wrote (Batch.issuesOf index history)) := by
  intro result history
  obtain ⟨place, hapart, hawaits⟩ := exists_apart hlabels hslashless hawaits
  have hfresh : made.Fresh := by
    have hensured := hfresh.ensureDirectory world.files.directory scorer.outputDirectory
    rw [hmade] at hensured
    exact hensured
  obtain ⟨last, hrun, htrail, hmoves, hunderway, hreported⟩ :=
    run_to_the_end hmade hjobs hapart hfresh hawaits hbehaves
  have hcollected := Batch.collectedJobs_of_trail htrail hmoves
  have hgathered := hreported.gathered
  rw [hcollected, hunderway.jobs] at hgathered
  have hresult : result = ⟨none, last⟩ := hrun
  rw [hresult]
  have hreports : (reports ⟨none, last⟩).Perm last.gathered := List.mergeSort_perm _ _
  have hdone (index : Nat) (reference : Submission) (hreference : references[index]? = some reference) :
      ∃ report ∈ reports ⟨none, last⟩,
        scorer.Through students reference runner (Batch.doings index history) report := by
    have hworker := Pool.worker_of_collectedJobs hcollected hunderway.jobs hreference
    obtain ⟨report, hmem, hthrough⟩ := hreported.collected index reference hworker
    exact ⟨report, hreports.mem_iff.mpr hmem, hthrough⟩
  refine ⟨rfl, (hreports.map _).trans hgathered, pairwise_reports (hgathered.nodup_iff.mpr hlabels),
    calls_perm htrail (jobs_start ..) fun index reference hreference => ?_,
    fun index reference hreference => ?_⟩
  · obtain ⟨report, -, -, stream, hscored⟩ := hdone index reference hreference
    exact ⟨stream, hscored.calls_eq⟩
  · obtain ⟨report, hmem, hbegan, stream, hscored⟩ := hdone index reference hreference
    exact ⟨stream, report, hmem, hscored, hscored.calls_eq,
      hunderway.flowing.read_eq hreference hbegan⟩

def said (call : Call) : Bytes :=
  Bytes.ofText (call.command.arguments.getD 2 "")

/-- An analyzer that says which file it was run on. It times out in its third run, and every second run goes
wrong. -/
def grumbler : Runner Nat := fun call files runs =>
  match call.stdout with
  | .stream stream =>
    (.ok (if runs = 2 then .timedOut ⟨5⟩ else .exited (runs % 2)),
      files.write stream (said call), runs + 1)
  | _ => (.ok (.exited 0), files, runs + 1)

theorem behaves_grumbler (scorer : Scorer) (references : List Submission) (issue : Issue Nat) :
    scorer.Behaves references grumbler (fun issue => said issue.call) issue where
  returned := by
    unfold Issue.answer grumbler
    split
    · exact ⟨_, rfl⟩
    · exact ⟨_, rfl⟩
  launched := by
    intro program detail
    unfold Issue.answer grumbler
    split
    · split <;> simp
    · simp
  confined := by
    intro stream hstream
    simp only [Issue.filesAfter, grumbler, hstream]
    exact Files.Confined.refl _ _

def scoredBefore : Files :=
  { Files.bare ["out"] with
    nodes := (Files.bare ["out"]).nodes.put ["out", "first.stdout"] (.file ⟨0⟩ (.ofText "old") false)
    nextFile := 1 }

def pairScorer : Scorer :=
  { rule := ⟨"analyzer", [⟨"p", "p.c"⟩, ⟨"q", "q.c"⟩], [], none⟩
    outputDirectory := ⟨"/out"⟩
    jobs := 2
    breakdown := fun _ panic => panic.message }

theorem made_pair :
    scoredBefore.ensureDirectory scoredBefore.directory pairScorer.outputDirectory = (.ok (), scoredBefore) := by
  rfl

theorem awaits_pair : ∀ reference ∈ [Submission.ofRoot "second" ⟨"/b"⟩, .ofRoot "first" ⟨"/a"⟩],
    ∃ location, scoredBefore.Awaits (pairScorer.streamPath reference) location := by
  have hsecond : pairScorer.streamPath (.ofRoot "second" ⟨"/b"⟩) = ⟨"/out/second.stdout"⟩ := by
    decide
  have hfirst : pairScorer.streamPath (.ofRoot "first" ⟨"/a"⟩) = ⟨"/out/first.stdout"⟩ := by
    decide
  have hvacant : scoredBefore.Awaits ⟨"/out/second.stdout"⟩ ["out", "second.stdout"] := .vacant (by rfl)
  have hplain : scoredBefore.Awaits ⟨"/out/first.stdout"⟩ ["out", "first.stdout"] := by
    have hlookup : scoredBefore.lookup scoredBefore.directory ⟨"/out/first.stdout"⟩ false =
      .ok (.occupied ["out", "first.stdout"] (.file ⟨0⟩ (.ofText "old") false)) := by rfl
    exact .plain hlookup (by decide)
  simp only [List.forall_mem_cons, hsecond, hfirst]
  exact ⟨⟨_, hvacant⟩, ⟨_, hplain⟩, by simp⟩

/-- Two students of one label, one reference that was scored before and one that was not. -/
theorem streams_exact_grumbler :
    let scorer : Scorer :=
      { rule := ⟨"analyzer", [⟨"p", "p.c"⟩, ⟨"q", "q.c"⟩], [], none⟩
        outputDirectory := ⟨"/out"⟩
        jobs := 2
        breakdown := fun _ panic => panic.message }
    let references := [Submission.ofRoot "second" ⟨"/b"⟩, Submission.ofRoot "first" ⟨"/a"⟩]
    let students := [Submission.ofRoot "s" ⟨"/s"⟩, Submission.ofRoot "s" ⟨"/t"⟩]
    let result := scorer.run grumbler (fun tick _ => tick) references students (.start scoredBefore 0)
    result.stop = none ∧
      ((reports result).map GroupReport.reference).Perm ["second", "first"] ∧
      ((reports result).map GroupReport.reference).Pairwise (· < ·) ∧
      result.batch.world.files.read result.batch.world.files.directory ⟨"/out/first.stdout"⟩ =
        .ok (Bytes.ofText "/s/src/p.c/s/src/q.c/t/src/p.c/t/src/q.c") := by
  intro scorer references students result
  have hfirst : scorer.streamPath (.ofRoot "first" ⟨"/a"⟩) = ⟨"/out/first.stdout"⟩ := by
    decide
  obtain ⟨hstop, hperm, hsorted, -, hgroups⟩ := streams_exact scorer grumbler (fun tick _ => tick)
    references students (.start scoredBefore 0) scoredBefore _ (by decide) (by decide) (by decide)
    made_pair (by decide) awaits_pair
    fun index issue _ => behaves_grumbler scorer references issue
  obtain ⟨stream, report, -, -, hcalls, hread⟩ := hgroups 1 _ rfl
  have hsaid := congrArg (fun calls => (calls.map said).foldl (· ++ ·) ByteArray.empty) hcalls
  rw [List.map_map, List.map_flatMap] at hsaid
  have hbytes : (students.flatMap fun student => scorer.rule.parts.map fun part =>
      Bytes.ofText (student.sources.join ⟨part.file⟩).shown).foldl (· ++ ·) ByteArray.empty =
        Bytes.ofText "/s/src/p.c/s/src/q.c/t/src/p.c/t/src/q.c" := by
    decide
  rw [hfirst] at hread
  exact ⟨hstop, hperm, hsorted, hread.trans (congrArg _ (hsaid.trans hbytes))⟩

end Scorer

end Assay
