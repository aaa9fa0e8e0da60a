import Assay.Proofs.Task.Leads
import Assay.Scoring

/-!
# The turns of the students

The analyzer is run for one student after the other, and for one student on part after part. Every student gets
all of its runs, whatever comes of them: what goes wrong is only counted against the student.
-/

namespace Assay

namespace Task

variable {α ρ : Type} {runner : Runner ρ}

theorem Leads.of_call {call : Call} {next : Ending → Task α} {moments : List (Moment ρ)} {value : α}
    (h : Leads runner ((Task.call call).bind next) moments (.done value)) :
    ∃ world ending later, moments = ⟨.run call, world⟩ :: later ∧
      (⟨call, world.files, world.memory⟩ : Issue ρ).answer runner = .ok ending ∧
      Leads runner (next ending) later (.done value) :=
  Leads.of_perform h

theorem Leads.of_note {level : Level} {message : String} {fields : List (String × String)}
    {next : Unit → Task α} {moments : List (Moment ρ)} {value : α}
    (h : Leads runner ((Task.note level message fields).bind next) moments (.done value)) :
    ∃ later, moments.filterMap Moment.issue? = later.filterMap Moment.issue? ∧
      Leads runner (next ()) later (.done value) := by
  obtain ⟨world, reply, later, rfl, -, hrest⟩ := Leads.of_perform h
  exact ⟨later, rfl, hrest⟩

end Task

/-- Nothing was wrong with what came of the call. -/
def Issue.went {ρ : Type} (runner : Runner ρ) (issue : Issue ρ) : Bool :=
  match issue.answer runner with
  | .ok (.exited status) => status = 0
  | _ => false

theorem Issue.went_iff {ρ : Type} {runner : Runner ρ} {issue : Issue ρ} :
    issue.went runner = true ↔ issue.answer runner = .ok (.exited 0) := by
  unfold went
  rcases issue.answer runner with panic | _ | _ | _ <;> simp

/-- The call was made. -/
def Issue.Launched {ρ : Type} (runner : Runner ρ) (issue : Issue ρ) : Prop :=
  ∀ program detail, issue.answer runner ≠ .ok (.notLaunched program detail)

namespace Scorer

variable {ρ : Type} {scorer : Scorer} {runner : Runner ρ} {stream : StreamId}
  {reference student : Submission} {students : List Submission} {moments : List (Moment ρ)}

/-- The calls of one student, in the order of the parts, all of which are counted. -/
theorem turn_of_leads {parts : List AnalyzerPart} {runs : Nat} {result : Except Failure (Nat × Bool)}
    (h : (scorer.scoreStudent stream reference student runs parts).Leads runner moments (.done result))
    (hlaunched : ∀ issue ∈ moments.filterMap Moment.issue?, issue.Launched runner) :
    (moments.filterMap Moment.issue?).map Issue.call =
        parts.map (scorer.call stream reference student) ∧
      result = .ok (runs + parts.length, (moments.filterMap Moment.issue?).all (Issue.went runner)) := by
  induction parts generalizing moments runs result with
  | nil =>
      obtain ⟨rfl, rfl⟩ := Task.Leads.of_done h
      exact ⟨rfl, rfl⟩
  | cons part parts ih =>
      simp only [scoreStudent, Task.monadBind_eq_bind] at h
      obtain ⟨world, ending, later, rfl, hanswer, hrest⟩ := Task.Leads.of_call h
      simp only [List.filterMap_cons, Moment.issue?, List.mem_cons, forall_eq_or_imp] at hlaunched
      obtain ⟨hfirst, hlater⟩ := hlaunched
      rw [List.filterMap_cons, Moment.issue?, List.map_cons, List.map_cons, List.all_cons]
      -- What went wrong is noted, and the parts that are left have their turn as they would have had it.
      have hwrong {message : String}
          (hnot : Issue.went runner ⟨scorer.call stream reference student part, world.files,
            world.memory⟩ = false)
          (hnoted : ((Task.note .debug message).bind fun _ =>
            (scorer.scoreStudent stream reference student (runs + 1) parts).bind fun found =>
              .done (found.map fun scored => (scored.1, false))).Leads runner later (.done result)) :
          (later.filterMap Moment.issue?).map Issue.call =
              parts.map (scorer.call stream reference student) ∧
            result = .ok (runs + (parts.length + 1),
              Issue.went runner ⟨scorer.call stream reference student part, world.files, world.memory⟩ &&
                (later.filterMap Moment.issue?).all (Issue.went runner)) := by
        obtain ⟨last, hlast, hrest⟩ := hnoted.of_note
        rw [hlast] at hlater ⊢
        obtain ⟨found, hscored, rfl⟩ := hrest.of_map
        obtain ⟨hcalls, rfl⟩ := ih hscored hlater
        rw [hnot, Bool.false_and, Nat.add_comm parts.length, ← Nat.add_assoc]
        exact ⟨hcalls, rfl⟩
      rw [List.cons_inj_right]
      split at hrest
      · next =>
        obtain ⟨hcalls, rfl⟩ := ih hrest hlater
        rw [Issue.went_iff.mpr hanswer, Bool.true_and, List.length_cons, Nat.add_comm parts.length,
          ← Nat.add_assoc]
        exact ⟨hcalls, rfl⟩
      · next status hzero => exact hwrong (by simpa [Issue.went, hanswer] using hzero) hrest
      · next limit => exact hwrong (by simp [Issue.went, hanswer]) hrest
      · next program detail => exact absurd hanswer (hfirst program detail)

/-- The students for whom some call went wrong, each with what was called for it. -/
def failedOf (runner : Runner ρ) (turns : List (Submission × List (Issue ρ))) : List String :=
  (turns.filter fun turn => !turn.2.all (Issue.went runner)).map fun turn => turn.1.label

/-- Every student has a turn, in the order of the students, and as many runs as there are parts. -/
theorem turns_of_leads {runs : Nat} {result : Except Failure (Nat × List String)}
    (h : (scorer.scoreStudents stream reference runs students).Leads runner moments (.done result))
    (hlaunched : ∀ issue ∈ moments.filterMap Moment.issue?, issue.Launched runner) :
    ∃ turns : List (Submission × List (Issue ρ)), turns.map Prod.fst = students ∧
      moments.filterMap Moment.issue? = (turns.map Prod.snd).flatten ∧
      (∀ turn ∈ turns, turn.2.map Issue.call =
        scorer.rule.parts.map (scorer.call stream reference turn.1)) ∧
      result = .ok (runs + students.length * scorer.rule.parts.length, failedOf runner turns) := by
  induction students generalizing moments runs result with
  | nil =>
      obtain ⟨rfl, rfl⟩ := Task.Leads.of_done h
      exact ⟨[], rfl, rfl, by simp, by simp [failedOf]⟩
  | cons student students ih =>
      simp only [scoreStudents, Task.monadBind_eq_bind] at h
      obtain ⟨noted, hnoted, h⟩ := h.of_note
      rw [hnoted] at hlaunched ⊢
      obtain ⟨turn, later, found, rfl, hturn, hrest⟩ := h.of_bind
      rw [List.filterMap_append] at hlaunched ⊢
      obtain ⟨hcalls, rfl⟩ := turn_of_leads hturn fun issue hissue =>
        hlaunched issue (List.mem_append_left _ hissue)
      have hlater := fun issue hissue => hlaunched issue (List.mem_append_right _ hissue)
      obtain ⟨last, failed, hlast, hscored, hresult⟩ : ∃ last failed,
          later.filterMap Moment.issue? = last.filterMap Moment.issue? ∧
          (scorer.scoreStudents stream reference (runs + scorer.rule.parts.length) students).Leads runner
            last (.done failed) ∧
          result = failed.map fun scored =>
            (scored.1, (if (turn.filterMap Moment.issue?).all (Issue.went runner) then []
              else [student.label]) ++ scored.2) := by
        rcases hwent : (turn.filterMap Moment.issue?).all (Issue.went runner) with _ | _ <;>
          rw [hwent] at hrest
        · obtain ⟨last, hlast, hrest⟩ := hrest.of_note
          obtain ⟨failed, hscored, rfl⟩ := hrest.of_map
          exact ⟨last, failed, hlast, hscored, rfl⟩
        · exact ⟨later, result, rfl, hrest, by cases result <;> rfl⟩
      rw [hlast] at hlater ⊢
      obtain ⟨turns, rfl, hissues, hturns, rfl⟩ := ih hscored hlater
      refine ⟨(student, turn.filterMap Moment.issue?) :: turns, rfl, ?_, ?_, ?_⟩
      · rw [hissues]
        rfl
      · simp only [List.mem_cons, forall_eq_or_imp]
        exact ⟨hcalls, hturns⟩
      · rw [hresult]
        rcases hwent : (turn.filterMap Moment.issue?).all (Issue.went runner) with _ | _ <;>
          simp [failedOf, hwent, Except.map, Nat.add_mul, Nat.add_assoc, Nat.add_comm]

/-! ### The group of a reference -/

theorem scoreGroup_eq (scorer : Scorer) (students : List Submission) (reference : Submission) :
    scorer.scoreGroup students reference =
      .perform (.openStream (scorer.streamPath reference)) fun
        | .error fault => .done (.error (.io fault))
        | .ok stream => (scorer.scoreStudents stream reference 0 students).bind fun scored =>
          .done (scored.map (scorer.report reference)) := by
  refine congrArg (Task.perform (.openStream (scorer.streamPath reference))) (funext fun reply => ?_)
  rcases reply with fault | stream <;> rfl

/-- How a group was scored: every student had a turn with all the parts, one after the other and on one stream, and
the report counts the turns in which something went wrong. -/
def Scored (scorer : Scorer) (students : List Submission) (reference : Submission) (runner : Runner ρ)
    (stream : StreamId) (issues : List (Issue ρ)) (report : GroupReport) : Prop :=
  ∃ turns : List (Submission × List (Issue ρ)), turns.map Prod.fst = students ∧
    issues = (turns.map Prod.snd).flatten ∧
    (∀ turn ∈ turns, turn.2.map Issue.call =
      scorer.rule.parts.map (scorer.call stream reference turn.1)) ∧
    report =
      { reference := reference.label
        output := scorer.streamPath reference
        invocations := students.length * scorer.rule.parts.length
        failed := failedOf runner turns }

theorem Scored.calls_eq {issues : List (Issue ρ)} {report : GroupReport}
    (h : scorer.Scored students reference runner stream issues report) :
    issues.map Issue.call = students.flatMap fun student =>
      scorer.rule.parts.map (scorer.call stream reference student) := by
  obtain ⟨turns, rfl, rfl, hturns, -⟩ := h
  rw [List.map_flatten, List.map_map, List.flatMap_map, List.flatMap_def]
  exact congrArg List.flatten (List.map_congr_left hturns)

theorem Scored.reference_eq {issues : List (Issue ρ)} {report : GroupReport}
    (h : scorer.Scored students reference runner stream issues report) :
    report.reference = reference.label := by
  obtain ⟨turns, -, -, -, rfl⟩ := h
  rfl

/-- A group that comes to its end has opened its stream first, and then every student had a turn. -/
theorem scored_of_leads {result : Except Failure GroupReport}
    (h : (scorer.scoreGroup students reference).Leads runner moments (.done result))
    (hlaunched : ∀ issue ∈ moments.filterMap Moment.issue?, issue.Launched runner) :
    (∃ world fault, moments = [⟨.openStream (scorer.streamPath reference), world⟩] ∧
        world.files.openStream world.files.directory (scorer.streamPath reference) .truncate =
          .error fault ∧ result = .error (.io fault)) ∨
      ∃ stream report, result = .ok report ∧ scorer.Scored students reference runner stream
        (moments.filterMap Moment.issue?) report := by
  rw [scoreGroup_eq] at h
  obtain ⟨world, reply, later, rfl, hreply, hrest⟩ := h.of_perform
  have hissues : (⟨.openStream (scorer.streamPath reference), world⟩ :: later).filterMap Moment.issue? =
    later.filterMap Moment.issue? := rfl
  rw [hissues] at hlaunched ⊢
  rcases hopen : world.files.openStream world.files.directory (scorer.streamPath reference) .truncate
    with fault | ⟨stream, opened⟩
  · simp only [Effect.perform, hopen] at hreply
    cases hreply
    obtain ⟨rfl, rfl⟩ := hrest.of_done
    exact .inl ⟨world, fault, rfl, hopen, rfl⟩
  · simp only [Effect.perform, hopen] at hreply
    cases hreply
    obtain ⟨failed, hscored, rfl⟩ := hrest.of_map
    obtain ⟨turns, hstudents, hissues, hturns, rfl⟩ := turns_of_leads hscored hlaunched
    rw [Nat.zero_add]
    exact .inr ⟨stream, _, rfl, turns, hstudents, hissues, hturns, rfl⟩

/-! ### What a group can ask for -/

def AsksWith (scorer : Scorer) (stream : StreamId) (students : List Submission)
    (reference : Submission) (effect : Effect) : Prop :=
  (∃ event, effect = .note event) ∨
    ∃ student ∈ students, ∃ part ∈ scorer.rule.parts,
      effect = .run (scorer.call stream reference student part)

theorem asksWith_note (event : Event) : scorer.AsksWith stream students reference (.note event) :=
  .inl ⟨event, rfl⟩

theorem asksWith_call {part : AnalyzerPart} (hstudent : student ∈ students)
    (hpart : part ∈ scorer.rule.parts) :
    scorer.AsksWith stream students reference (.run (scorer.call stream reference student part)) :=
  .inr ⟨student, hstudent, part, hpart, rfl⟩

theorem along_scoreStudent (hstudent : student ∈ students) {parts : List AnalyzerPart}
    (hparts : ∀ part ∈ parts, part ∈ scorer.rule.parts) (runs : Nat) :
    (scorer.scoreStudent stream reference student runs parts).Along
      (scorer.AsksWith stream students reference) (fun _ _ => True) fun _ => True := by
  induction parts generalizing runs with
  | nil => trivial
  | cons part parts ih =>
      have hrest := ih (fun other hother => hparts other (List.mem_cons_of_mem _ hother)) (runs + 1)
      have hnoted (message : String) : ((Task.note .debug message).bind fun _ =>
          (scorer.scoreStudent stream reference student (runs + 1) parts).bind fun found =>
            Task.done (found.map fun scored => (scored.1, false))).Along
          (scorer.AsksWith stream students reference) (fun _ _ => True) fun _ => True :=
        Task.along_bind (Task.along_ask (asksWith_note _)) fun _ _ =>
          Task.along_bind hrest fun _ _ => trivial
      simp only [scoreStudent, Task.monadBind_eq_bind]
      have hpart := hparts part (List.mem_cons_self ..)
      refine Task.along_bind (Task.along_ask (asksWith_call hstudent hpart)) fun ending _ => ?_
      split
      · exact hrest
      · exact hnoted _
      · exact hnoted _
      · trivial

theorem along_scoreStudents {some : List Submission} (hstudents : ∀ student ∈ some, student ∈ students)
    (runs : Nat) :
    (scorer.scoreStudents stream reference runs some).Along
      (scorer.AsksWith stream students reference) (fun _ _ => True) fun _ => True := by
  induction some generalizing runs with
  | nil => trivial
  | cons student some ih =>
      have hrest := ih fun other hother => hstudents other (List.mem_cons_of_mem _ hother)
      simp only [scoreStudents, Task.monadBind_eq_bind]
      refine Task.along_bind (Task.along_ask (asksWith_note _)) fun _ _ =>
        Task.along_bind (along_scoreStudent (hstudents student (by simp)) (fun _ hpart => hpart) runs)
          fun found _ => ?_
      split
      · trivial
      · exact hrest _
      · exact Task.along_bind (Task.along_ask (asksWith_note _)) fun _ _ =>
          Task.along_bind (hrest _) fun _ _ => trivial

/-- A group either opens its stream, as the first thing, or goes on with the stream it has opened. -/
theorem asks_of_leads {effect : Effect} {rest : effect.Reply → Task (Except Failure GroupReport)}
    (h : (scorer.scoreGroup students reference).Leads runner moments (.perform effect rest)) :
    (moments = [] ∧ effect = .openStream (scorer.streamPath reference)) ∨
      ∃ world stream opened later,
        moments = ⟨.openStream (scorer.streamPath reference), world⟩ :: later ∧
        world.files.openStream world.files.directory (scorer.streamPath reference) .truncate =
          .ok (stream, opened) ∧
        scorer.AsksWith stream students reference effect := by
  rw [scoreGroup_eq] at h
  cases h with
  | rest _ => exact .inl ⟨rfl, rfl⟩
  | @step _ _ reply world later _ hreply hrest =>
      right
      rcases hopen : world.files.openStream world.files.directory (scorer.streamPath reference)
        .truncate with fault | ⟨stream, opened⟩
      · simp only [Effect.perform, hopen] at hreply
        cases hreply
        cases hrest
      · simp only [Effect.perform, hopen] at hreply
        cases hreply
        have hgroup : ((scorer.scoreStudents stream reference 0 students).bind fun scored =>
            Task.done (scored.map (scorer.report reference))).Along
            (scorer.AsksWith stream students reference) (fun _ _ => True) fun _ => True :=
          Task.along_bind (along_scoreStudents (fun _ hstudent => hstudent) 0) fun _ _ => trivial
        have halong := hrest.along (fun _ _ => trivial) hgroup
        exact ⟨world, stream, opened, later, rfl, hopen, halong.1⟩

end Scorer

end Assay
