import Assay.Proofs.Batch.Doings
import Assay.Proofs.Files.Streams
import Assay.Proofs.Scoring.Run
import Assay.Proofs.Scoring.Turns

/-!
# What comes through the streams

At every moment of the scoring the file of a reference holds what its own calls have written until then, and that
is all. One move changes the file of one reference at most, so the others only have to be seen not to change.
-/

namespace Assay

variable {ρ : Type}

/-- The stream that was opened at this moment. -/
def Moment.stream? : Moment ρ → Option StreamId
  | ⟨.openStream path, world⟩ =>
    (world.files.openStream world.files.directory path .truncate).toOption.map Prod.fst
  | _ => none

namespace Scorer

def written (wrote : Issue ρ → Bytes) (issues : List (Issue ρ)) : Bytes :=
  (issues.map wrote).foldl (· ++ ·) ByteArray.empty

theorem written_concat (wrote : Issue ρ → Bytes) (issues : List (Issue ρ)) (issue : Issue ρ) :
    written wrote (issues ++ [issue]) = written wrote issues ++ wrote issue := by
  simp [written]

/-- The stream that was opened, and what has come through it. -/
def sunk (wrote : Issue ρ → Bytes) (moments : List (Moment ρ)) : Option (StreamId × Bytes) :=
  (moments.findSome? Moment.stream?).map fun stream =>
    (stream, written wrote (moments.filterMap Moment.issue?))

section Sunk

variable {wrote : Issue ρ → Bytes} {moments : List (Moment ρ)} {world : World ρ}

theorem sunk_concat_note (event : Event) :
    sunk wrote (moments ++ [⟨.note event, world⟩]) = sunk wrote moments := by
  have hstream : [(⟨.note event, world⟩ : Moment ρ)].findSome? Moment.stream? = none := rfl
  have hissues : [(⟨.note event, world⟩ : Moment ρ)].filterMap Moment.issue? = [] := rfl
  rw [sunk, sunk, List.findSome?_append, List.filterMap_append, hstream, hissues, Option.or_none,
    List.append_nil]

theorem sunk_concat_run {stream : StreamId} {content : Bytes}
    (h : sunk wrote moments = some (stream, content)) (call : Call) :
    sunk wrote (moments ++ [⟨.run call, world⟩]) =
      some (stream, content ++ wrote ⟨call, world.files, world.memory⟩) := by
  obtain ⟨found, hfound, heq⟩ := Option.map_eq_some_iff.mp h
  cases heq
  have hissues : [(⟨.run call, world⟩ : Moment ρ)].filterMap Moment.issue? =
    [⟨call, world.files, world.memory⟩] := rfl
  rw [sunk, List.findSome?_append, List.filterMap_append, hissues, hfound, Option.some_or, Option.map_some,
    written_concat]

theorem sunk_open {stream : StreamId} {opened : Files} {path : Path}
    (h : world.files.openStream world.files.directory path .truncate = .ok (stream, opened))
    (later : List (Moment ρ)) :
    sunk wrote (⟨.openStream path, world⟩ :: later) =
      some (stream, written wrote (later.filterMap Moment.issue?)) := by
  have hissues : (⟨.openStream path, world⟩ :: later).filterMap Moment.issue? =
    later.filterMap Moment.issue? := rfl
  rw [sunk, hissues]
  simp [Moment.stream?, h, Except.toOption]

end Sunk

section Paths

variable {scorer : Scorer} {reference : Submission}

theorem legal_streamName (h : '/' ∉ reference.label.toList) :
    Path.Legal (RawText.ofText (reference.label ++ ".stdout")) := by
  refine Path.legal_ofText_iff.mpr ⟨fun hempty => ?_, ?_⟩
  · have hlength := congrArg String.length hempty
    simp at hlength
  · rw [String.toList_append, List.mem_append, not_or]
    exact ⟨h, by decide⟩

theorem streamName_ne_of_short {name : String} (hshort : name.length < 7) :
    RawText.ofText (reference.label ++ ".stdout") ≠ name := by
  intro hsame
  obtain rfl := RawText.ofText_injective hsame
  rw [String.length_append] at hshort
  exact absurd (Nat.le_add_left 7 _) (Nat.not_le.mpr hshort)

theorem endsInSeparator_streamPath (h : '/' ∉ reference.label.toList) :
    (scorer.streamPath reference).endsInSeparator = false :=
  Path.endsInSeparator_join_of_legal (legal_streamName h)

/-- The streams of different references are at different places. -/
theorem exists_places (scorer : Scorer) (files : Files) (base : Location) :
    ∃ place : Submission → Location,
      (∀ left right, place left = place right → left.label = right.label) ∧
      ∀ reference found, '/' ∉ reference.label.toList →
        files.lookup base (scorer.streamPath reference) false = .ok found →
          found.location = place reference := by
  obtain ⟨above, habove⟩ := Files.location_of_lookup_join files base scorer.outputDirectory
  refine ⟨fun reference => above ++ [RawText.ofText (reference.label ++ ".stdout")], fun left right hsame => ?_, ?_⟩
  · have hname : left.label ++ ".stdout" = right.label ++ ".stdout" := by simpa using hsame
    exact String.append_left_inj _ |>.mp hname
  · intro reference found hslash hfound
    exact habove _ found (legal_streamName hslash) (streamName_ne_of_short (by decide))
      (streamName_ne_of_short (by decide)) hfound

end Paths

/-- The analyzer comes back from this call, and as far as the streams of the references are concerned it has done
nothing but write to the one it was given. -/
structure Behaves (scorer : Scorer) (references : List Submission) (runner : Runner ρ)
    (wrote : Issue ρ → Bytes) (issue : Issue ρ) : Prop where
  returned : ∃ ending, issue.answer runner = .ok ending
  launched : issue.Launched runner
  confined : ∀ stream, issue.call.stdout = .stream stream →
    Files.Confined (references.map scorer.streamPath) (issue.files.write stream (wrote issue))
      (issue.filesAfter runner)

/-- As far as the streams of the references are concerned, the call has done nothing but write to the one it was
given, whether it came back from it or not. -/
def WritesOnly (scorer : Scorer) (references : List Submission) (runner : Runner ρ)
    (wrote : Issue ρ → Bytes) (issue : Issue ρ) : Prop :=
  ∀ stream, issue.call.stdout = .stream stream →
    Files.Confined (references.map scorer.streamPath) (issue.files.write stream (wrote issue))
      (issue.filesAfter runner)

/-- The labels can be part of a name, and the streams of the references are at different places. -/
structure Apart (references : List Submission) (place : Submission → Location) : Prop where
  slashless : ∀ reference ∈ references, '/' ∉ reference.label.toList
  places : ∀ (left right : Nat) (leftReference rightReference : Submission),
    references[left]? = some leftReference → references[right]? = some rightReference → left ≠ right →
      place leftReference ≠ place rightReference

variable {scorer : Scorer} {references students : List Submission} {place : Submission → Location}
  {runner : Runner ρ} {wrote : Issue ρ → Bytes}
  {past : List (Batch Submission (Except Failure GroupReport) (List GroupReport) ρ × Move)}
  {batch next : Batch Submission (Except Failure GroupReport) (List GroupReport) ρ} {move : Move}

/-- What the files hold after these moves. -/
structure Flowing (scorer : Scorer) (references : List Submission) (place : Submission → Location)
    (wrote : Issue ρ → Bytes)
    (past : List (Batch Submission (Except Failure GroupReport) (List GroupReport) ρ × Move))
    (files : Files) : Prop where
  fresh : files.Fresh
  bears : ∀ index reference, references[index]? = some reference →
    files.Bears (scorer.streamPath reference) (place reference) (sunk wrote (Batch.doings index past))
  opened : ∀ index, Batch.doings index past ≠ [] → (sunk wrote (Batch.doings index past)).isSome

/-- How far the scoring has come, whatever has come of the calls. -/
structure Afloat (scorer : Scorer) (references students : List Submission)
    (place : Submission → Location) (runner : Runner ρ) (wrote : Issue ρ → Bytes)
    (past : List (Batch Submission (Except Failure GroupReport) (List GroupReport) ρ × Move))
    (batch : Batch Submission (Except Failure GroupReport) (List GroupReport) ρ) : Prop where
  jobs : batch.pool.workers.map Worker.job = references
  led : batch.pool.Led runner (scorer.scoreGroup students) past
  flowing : scorer.Flowing references place wrote past batch.world.files

/-- How far the scoring has come without any trouble. -/
structure Underway (scorer : Scorer) (references students : List Submission)
    (place : Submission → Location) (runner : Runner ρ) (wrote : Issue ρ → Bytes)
    (past : List (Batch Submission (Except Failure GroupReport) (List GroupReport) ρ × Move))
    (batch : Batch Submission (Except Failure GroupReport) (List GroupReport) ρ) : Prop extends
    Afloat scorer references students place runner wrote past batch where
  behaved : ∀ index, ∀ issue ∈ Batch.issuesOf index past,
    scorer.Behaves references runner wrote issue

theorem Afloat.job_eq (h : scorer.Afloat references students place runner wrote past batch)
    {index : Nat} {job : Submission} {phase : Phase (Except Failure GroupReport)}
    (hworker : batch.pool.workers[index]? = some ⟨job, phase⟩) : references[index]? = some job := by
  rw [← h.jobs, List.getElem?_map, hworker]
  rfl

theorem Flowing.quiet (h : scorer.Flowing references place wrote past batch.world.files)
    (hquiet : ∀ index, Batch.doing? index (batch, move) = none) :
    scorer.Flowing references place wrote (past ++ [(batch, move)]) batch.world.files := by
  have hsame (index : Nat) : Batch.doings index (past ++ [(batch, move)]) = Batch.doings index past := by
    rw [Batch.doings_concat, hquiet, Option.toList_none, List.append_nil]
  refine ⟨h.fresh, fun index reference hreference => ?_, fun index hsome => ?_⟩
  · rw [hsame]
    exact h.bears index reference hreference
  · rw [hsame] at hsome ⊢
    exact h.opened index hsome

section Effects

variable (h : scorer.Afloat references students place runner wrote past batch)
  (hapart : Apart references place) {index : Nat} {job : Submission}

include h hapart

/-- What one worker does is looked at where its own stream is, and is not seen anywhere else. -/
theorem Afloat.flowing_of_effect {effect : Effect} {after : Files}
    {rest : effect.Reply → Task (Except Failure GroupReport)} {stream : StreamId} {content : Bytes}
    (hworker : batch.pool.workers[index]? = some ⟨job, .active (.perform effect rest)⟩)
    (hfresh : after.Fresh)
    (hsunk : sunk wrote (Batch.doings index past ++ [⟨effect, batch.world⟩]) = some (stream, content))
    (hcarries : after.Carries (scorer.streamPath job) (place job) stream content)
    (hothers : ∀ other reference, references[other]? = some reference →
      place job ≠ place reference →
      after.Bears (scorer.streamPath reference) (place reference)
        (sunk wrote (Batch.doings other past))) :
    scorer.Flowing references place wrote (past ++ [(batch, .advance index)]) after := by
  have hown : Batch.doings index (past ++ [(batch, .advance index)]) =
      Batch.doings index past ++ [⟨effect, batch.world⟩] := by
    rw [Batch.doings_concat, Batch.doing?_perform hworker, if_pos rfl]
    rfl
  have hother {other : Nat} (hne : index ≠ other) :
      Batch.doings other (past ++ [(batch, .advance index)]) = Batch.doings other past := by
    rw [Batch.doings_concat, Batch.doing?_perform hworker, if_neg hne, Option.toList_none,
      List.append_nil]
  refine ⟨hfresh, fun other reference hreference => ?_, fun other hsome => ?_⟩
  · by_cases hsame : index = other
    · subst hsame
      obtain rfl : job = reference := Option.some.inj ((h.job_eq hworker).symm.trans hreference)
      rw [hown, hsunk]
      exact hcarries
    · rw [hother hsame]
      exact hothers other reference hreference
        (hapart.places index other job reference (h.job_eq hworker) hreference hsame)
  · by_cases hsame : index = other
    · subst hsame
      rw [hown, hsunk]
      rfl
    · rw [hother hsame] at hsome ⊢
      exact h.flowing.opened other hsome

theorem Afloat.flowing_of_open
    {rest : (Effect.openStream (scorer.streamPath job)).Reply → Task (Except Failure GroupReport)}
    (hworker : batch.pool.workers[index]? =
      some ⟨job, .active (.perform (.openStream (scorer.streamPath job)) rest)⟩)
    (hnone : Batch.doings index past = []) :
    ∃ stream opened, batch.world.files.openStream batch.world.files.directory
        (scorer.streamPath job) .truncate = .ok (stream, opened) ∧
      scorer.Flowing references place wrote (past ++ [(batch, .advance index)]) opened := by
  have hjob := h.job_eq hworker
  have hslash := hapart.slashless job (List.mem_of_getElem? hjob)
  have hawaits := h.flowing.bears index job hjob
  rw [hnone] at hawaits
  obtain ⟨id, executable, number, hopens⟩ :=
    Files.Awaits.opens hawaits h.flowing.fresh (endsInSeparator_streamPath hslash)
  refine ⟨_, _, hopens.openStream_eq, h.flowing_of_effect hapart hworker
    (hopens.fresh h.flowing.fresh) ?_ hopens.carries fun other reference hreference hne => ?_⟩
  · rw [hnone, List.nil_append, sunk_open hopens.openStream_eq]
    rfl
  · exact hopens.bears_other hne (h.flowing.bears other reference hreference)

theorem Afloat.flowing_of_note {event : Event} {stream : StreamId} {content : Bytes}
    {rest : (Effect.note event).Reply → Task (Except Failure GroupReport)}
    (hworker : batch.pool.workers[index]? = some ⟨job, .active (.perform (.note event) rest)⟩)
    (hsunk : sunk wrote (Batch.doings index past) = some (stream, content)) :
    scorer.Flowing references place wrote (past ++ [(batch, .advance index)]) batch.world.files := by
  have hcarries := h.flowing.bears index job (h.job_eq hworker)
  rw [hsunk] at hcarries
  apply h.flowing_of_effect hapart hworker h.flowing.fresh ((sunk_concat_note event).trans hsunk) hcarries
  exact fun other reference hreference _ => h.flowing.bears other reference hreference

theorem Afloat.flowing_of_call {call : Call} {stream : StreamId} {content : Bytes}
    {rest : (Effect.run call).Reply → Task (Except Failure GroupReport)}
    (hworker : batch.pool.workers[index]? = some ⟨job, .active (.perform (.run call) rest)⟩)
    (hstdout : call.stdout = .stream stream)
    (hsunk : sunk wrote (Batch.doings index past) = some (stream, content))
    (hwrites : scorer.WritesOnly references runner wrote
      ⟨call, batch.world.files, batch.world.memory⟩) :
    scorer.Flowing references place wrote (past ++ [(batch, .advance index)])
      (Issue.filesAfter runner ⟨call, batch.world.files, batch.world.memory⟩) := by
  have hjob := h.job_eq hworker
  have hconfined := hwrites stream hstdout
  have hmem {other : Nat} {reference : Submission} (hreference : references[other]? = some reference) :
      scorer.streamPath reference ∈ references.map scorer.streamPath :=
    List.mem_map_of_mem (List.mem_of_getElem? hreference)
  have hcarries := h.flowing.bears index job hjob
  rw [hsunk] at hcarries
  have hwritten : Files.Bears (batch.world.files.write stream
      (wrote ⟨call, batch.world.files, batch.world.memory⟩)) (scorer.streamPath job) (place job)
      (some (stream, content ++ wrote ⟨call, batch.world.files, batch.world.memory⟩)) :=
    Files.Carries.write hcarries _
  refine h.flowing_of_effect hapart hworker (hconfined.fresh (h.flowing.fresh.write stream _))
    (sunk_concat_run hsunk call) (hconfined.bears (hmem hjob) hwritten)
    fun other reference hreference hne => ?_
  apply hconfined.bears (hmem hreference)
  exact Files.Carries.bears_other hcarries hne (h.flowing.bears other reference hreference) _

end Effects

theorem files_of_take {count : Nat} {job : Submission}
    {result : Except Panic (Except Failure GroupReport)} {reports gathered : List GroupReport}
    {world after : World ρ} (h : scorer.take count job result reports world = (.ok gathered, after)) :
    after.files = world.files ∧ ∃ report, result = .ok (.ok report) ∧ gathered = reports ++ [report] := by
  rcases result with panic | failure | report
  · cases h
  · cases h
  · cases h
    exact ⟨rfl, report, rfl, rfl⟩

theorem Afloat.flowing_of_step
    (h : scorer.Afloat references students place runner wrote past batch)
    (hapart : Apart references place)
    (hstep : Batch.Step runner (scorer.collect students.length) batch move next)
    (hwrites : ∀ index moment issue, Batch.doing? index (batch, move) = some moment →
      moment.issue? = some issue → scorer.WritesOnly references runner wrote issue) :
    scorer.Flowing references place wrote (past ++ [(batch, move)]) next.world.files := by
  -- The first effect of a worker opens its stream, and only from then on there is something to lose.
  have hperformed {index : Nat} {job : Submission} {effect : Effect}
      {rest : effect.Reply → Task (Except Failure GroupReport)} (hmove : move = .advance index)
      (hworker : batch.pool.workers[index]? = some ⟨job, .active (.perform effect rest)⟩) :
      scorer.Flowing references place wrote (past ++ [(batch, move)])
        (effect.perform runner batch.world).2.files := by
    subst hmove
    rcases asks_of_leads (h.led index job _ hworker) with ⟨hnone, rfl⟩ |
      ⟨world, stream, opened, later, hmoments, hopen, hasks⟩
    · obtain ⟨stream, opened, hopen, hflowing⟩ := h.flowing_of_open hapart hworker hnone
      simp only [Effect.perform, hopen]
      exact hflowing
    have hsunk : ∃ content, sunk wrote (Batch.doings index past) = some (stream, content) := by
      rw [hmoments]
      exact ⟨_, sunk_open hopen later⟩
    obtain ⟨content, hsunk⟩ := hsunk
    rcases hasks with ⟨event, rfl⟩ | ⟨student, _, part, _, rfl⟩
    · exact h.flowing_of_note hapart hworker hsunk
    · have hdoing := Batch.doing?_perform hworker index
      rw [if_pos rfl] at hdoing
      exact h.flowing_of_call hapart hworker rfl hsunk (hwrites index _ _ hdoing rfl)
  cases hstep with
  | entered hworker hfree => exact h.flowing.quiet fun _ => rfl
  | advanced hworker hperform =>
      have hflowing := hperformed rfl hworker
      rw [hperform] at hflowing
      exact hflowing
  | panicked hworker hperform =>
      have hflowing := hperformed rfl hworker
      rw [hperform] at hflowing
      exact hflowing
  | @ended index job value hworker =>
      exact h.flowing.quiet fun other => Batch.doing?_done hworker other
  | collected hworker hcollect =>
      dsimp only
      rw [(files_of_take hcollect).1]
      exact h.flowing.quiet fun _ => rfl

theorem Afloat.step (h : scorer.Afloat references students place runner wrote past batch)
    (hapart : Apart references place)
    (hstep : Batch.Step runner (scorer.collect students.length) batch move next)
    (hwrites : ∀ index moment issue, Batch.doing? index (batch, move) = some moment →
      moment.issue? = some issue → scorer.WritesOnly references runner wrote issue) :
    scorer.Afloat references students place runner wrote (past ++ [(batch, move)]) next where
  jobs := hstep.jobs_eq.trans h.jobs
  led := hstep.led h.led
  flowing := h.flowing_of_step hapart hstep hwrites

theorem jobs_start (references students : List Submission) (world : World ρ) :
    (scorer.start references students world).pool.workers.map Worker.job = references := by
  simp [start, workOf, Batch.start, Function.comp_def]

theorem afloat_start {world : World ρ} (hfresh : world.files.Fresh)
    (hawaits : ∀ reference ∈ references,
      world.files.Awaits (scorer.streamPath reference) (place reference)) :
    scorer.Afloat references students place runner wrote []
      (scorer.start references students world) where
  jobs := jobs_start references students world
  led := Batch.led_start _ _ _ _
  flowing :=
    { fresh := hfresh
      bears := fun _ reference hreference => hawaits reference (List.mem_of_getElem? hreference)
      opened := fun _ hnone => absurd rfl hnone }

/-- Whatever comes of the calls, the streams hold what was written to them. -/
theorem afloat_of_trail {world : World ρ} {last : Batch Submission (Except Failure GroupReport) (List GroupReport) ρ}
    (hapart : Apart references place) (hfresh : world.files.Fresh)
    (hawaits : ∀ reference ∈ references,
      world.files.Awaits (scorer.streamPath reference) (place reference))
    (htrail : Batch.Trail runner (scorer.collect students.length) (scorer.start references students world)
      past last)
    (hwrites : ∀ index, ∀ issue ∈ Batch.issuesOf index past,
      scorer.WritesOnly references runner wrote issue) :
    scorer.Afloat references students place runner wrote past last := by
  refine htrail.invariant (scorer.Afloat references students place runner wrote) []
    (afloat_start hfresh hawaits) fun before batch move next hentry hafloat hstep => ?_
  exact hafloat.step hapart hstep fun index moment issue hmoment hissue =>
    hwrites index issue (Batch.mem_issuesOf hentry hmoment hissue)

theorem Underway.step (h : scorer.Underway references students place runner wrote past batch)
    (hapart : Apart references place)
    (hstep : Batch.Step runner (scorer.collect students.length) batch move next)
    (hbehaves : ∀ index moment issue, Batch.doing? index (batch, move) = some moment →
      moment.issue? = some issue → scorer.Behaves references runner wrote issue) :
    scorer.Underway references students place runner wrote (past ++ [(batch, move)]) next where
  toAfloat := h.toAfloat.step hapart hstep fun index moment issue hmoment hissue =>
    (hbehaves index moment issue hmoment hissue).confined
  behaved := by
    intro index issue hissue
    rw [Batch.issuesOf, Batch.doings_concat, List.filterMap_append] at hissue
    rcases List.mem_append.mp hissue with hold | hnew
    · exact h.behaved index issue hold
    · obtain ⟨moment, hmoment, hissue⟩ := List.mem_filterMap.mp hnew
      exact hbehaves index moment issue (Option.mem_toList.mp hmoment) hissue

end Scorer

end Assay
