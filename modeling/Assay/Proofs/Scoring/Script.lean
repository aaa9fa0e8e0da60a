import Assay.Proofs.Scoring.Sinks

/-!
# What a group does until it fails

A group makes its calls in an order that is known before it starts, and what comes of a call decides only whether the
next one is made. So what it has done at any moment is told by how many of its calls were made, and by whether the
last of them could be launched.
-/

namespace Assay

variable {α β ρ : Type}

namespace Task

/-- The task makes these calls one after the other, whatever comes of them, and gives up at the first that is not
launched, with that as its failure. Between the calls it may do anything else. -/
inductive Script : List Call → Task (Except Failure α) → Prop
  | ended (value : α) : Script [] (.done (.ok value))
  | call {call : Call} {calls : List Call} {next : Ending → Task (Except Failure α)}
      (hrefused : ∀ program detail,
        next (.notLaunched program detail) = .done (.error (.launch program detail)))
      (hlater : ∀ ending, (∀ program detail, ending ≠ .notLaunched program detail) →
        Script calls (next ending)) :
      Script (call :: calls) (.perform (.run call) next)
  | between {effect : Effect} {calls : List Call} {next : effect.Reply → Task (Except Failure α)}
      (hother : ∀ call, effect ≠ .run call) (hlater : ∀ reply, Script calls (next reply)) :
      Script calls (.perform effect next)

theorem Script.bind {task : Task (Except Failure α)} {next : Except Failure α → Task (Except Failure β)}
    {first later : List Call} (h : Script first task) (hnext : ∀ value, Script later (next (.ok value)))
    (hfails : ∀ failure, next (.error failure) = .done (.error failure)) :
    Script (first ++ later) (task.bind next) := by
  induction h with
  | ended value => exact hnext value
  | call hrefused _ ih =>
      refine .call (fun program detail => ?_) fun ending hlaunched => ih ending hlaunched
      rw [hrefused, done_bind, hfails]
  | between hother _ ih => exact .between hother ih

theorem Script.map {task : Task (Except Failure α)} {calls : List Call} (h : Script calls task)
    (change : α → β) : Script calls (task.bind fun found => .done (found.map change)) := by
  rw [← List.append_nil calls]
  exact h.bind (fun value => .ended (change value)) fun _ => rfl

theorem Script.note {level : Level} {message : String} {fields : List (String × String)}
    {next : Unit → Task (Except Failure α)} {calls : List Call} (h : Script calls (next ())) :
    Script calls ((Task.note level message fields).bind next) :=
  .between nofun fun _ => h

theorem Script.of_call {call : Call} {next : Ending → Task (Except Failure α)} {calls : List Call}
    (hrefused : ∀ program detail,
      next (.notLaunched program detail) = .done (.error (.launch program detail)))
    (hlater : ∀ ending, (∀ program detail, ending ≠ .notLaunched program detail) →
      Script calls (next ending)) :
    Script (call :: calls) ((Task.call call).bind next) :=
  .call hrefused hlater

/-- How far a script was followed by these calls, and what is left to do. -/
inductive Followed (runner : Runner ρ) (calls : List Call) :
    List (Issue ρ) → Task (Except Failure α) → Prop
  | on {issues : List (Issue ρ)} {left : List Call} {rest : Task (Except Failure α)}
      (hcalls : calls = issues.map Issue.call ++ left)
      (hlaunched : ∀ issue ∈ issues, issue.Launched runner) (hrest : Script left rest) :
      Followed runner calls issues rest
  | refused {before : List (Issue ρ)} {issue : Issue ρ} {left : List Call} {program detail : String}
      (hcalls : calls = (before ++ [issue]).map Issue.call ++ left)
      (hlaunched : ∀ earlier ∈ before, earlier.Launched runner)
      (hanswer : issue.answer runner = .ok (.notLaunched program detail)) :
      Followed runner calls (before ++ [issue]) (.done (.error (.launch program detail)))

theorem Followed.cons {runner : Runner ρ} {calls : List Call} {first : Issue ρ} {issues : List (Issue ρ)}
    {rest : Task (Except Failure α)} (h : Followed runner calls issues rest) (hfirst : first.Launched runner) :
    Followed runner (first.call :: calls) (first :: issues) rest := by
  cases h with
  | on hcalls hlaunched hrest =>
      refine .on (by rw [hcalls]; rfl) ?_ hrest
      exact List.forall_mem_cons.mpr ⟨hfirst, hlaunched⟩
  | refused hcalls hlaunched hanswer =>
      rw [← List.cons_append]
      exact .refused (by rw [hcalls]; rfl) (List.forall_mem_cons.mpr ⟨hfirst, hlaunched⟩) hanswer

theorem Script.followed {runner : Runner ρ} {task rest : Task (Except Failure α)} {calls : List Call}
    {moments : List (Moment ρ)} (h : Script calls task) (hleads : task.Leads runner moments rest) :
    Followed runner calls (moments.filterMap Moment.issue?) rest := by
  induction hleads generalizing calls with
  | rest task => exact .on rfl (fun _ hissue => nomatch hissue) h
  | @step effect next reply world moments last hreply hrest ih =>
      cases h with
      | @call call later _ hrefused hlater =>
          have hanswer : Issue.answer runner ⟨call, world.files, world.memory⟩ = .ok reply := hreply
          by_cases hlaunched : ∀ program detail, reply ≠ .notLaunched program detail
          · have hfirst : Issue.Launched runner ⟨call, world.files, world.memory⟩ := fun program detail hnot =>
              hlaunched program detail (Except.ok.inj (hanswer.symm.trans hnot))
            exact (ih (hlater reply hlaunched)).cons hfirst
          · push Not at hlaunched
            obtain ⟨program, detail, rfl⟩ := hlaunched
            rw [hrefused] at hrest
            cases hrest
            rw [← List.nil_append (List.filterMap _ _)]
            exact .refused rfl (fun _ hissue => nomatch hissue) hanswer
      | between hother hlater =>
          have hnone : Moment.issue? ⟨effect, world⟩ = none := by
            cases effect with
            | run call => exact absurd rfl (hother call)
            | _ => rfl
          rw [List.filterMap_cons, hnone]
          exact ih (hlater reply)

end Task

namespace Scorer

variable {scorer : Scorer} {runner : Runner ρ} {stream : StreamId} {reference student : Submission}
  {students : List Submission} {moments : List (Moment ρ)}

/-- The calls for a reference, student by student and for each of them part by part. -/
def callsOf (scorer : Scorer) (stream : StreamId) (reference : Submission) (students : List Submission) :
    List Call :=
  students.flatMap fun student => scorer.rule.parts.map (scorer.call stream reference student)

theorem script_scoreStudent (scorer : Scorer) (stream : StreamId) (reference student : Submission)
    (runs : Nat) (parts : List AnalyzerPart) :
    (scorer.scoreStudent stream reference student runs parts).Script
      (parts.map (scorer.call stream reference student)) := by
  induction parts generalizing runs with
  | nil => exact .ended (runs, true)
  | cons part parts ih =>
      simp only [scoreStudent, Task.monadBind_eq_bind]
      refine .of_call (fun _ _ => rfl) fun ending hlaunched => ?_
      split
      · exact ih (runs + 1)
      · exact ((ih (runs + 1)).map _).note
      · exact ((ih (runs + 1)).map _).note
      · next program detail => exact absurd rfl (hlaunched program detail)

theorem script_scoreStudents (scorer : Scorer) (stream : StreamId) (reference : Submission) (runs : Nat)
    (students : List Submission) :
    (scorer.scoreStudents stream reference runs students).Script
      (scorer.callsOf stream reference students) := by
  induction students generalizing runs with
  | nil => exact .ended (runs, [])
  | cons student students ih =>
      simp only [scoreStudents, Task.monadBind_eq_bind, callsOf, List.flatMap_cons]
      refine .note ((script_scoreStudent scorer stream reference student runs _).bind (fun scored => ?_)
        fun _ => rfl)
      rcases scored with ⟨more, _ | _⟩
      · exact ((ih more).map _).note
      · exact ih more

/-- How a group stands: it has not begun, it could not, or it has opened its stream and follows its calls. -/
inductive Standing (scorer : Scorer) (students : List Submission) (reference : Submission)
    (runner : Runner ρ) : List (Moment ρ) → Task (Except Failure GroupReport) → Prop
  | waiting : Standing scorer students reference runner [] (scorer.scoreGroup students reference)
  | unopened {world : World ρ} {fault : Fault} :
      Standing scorer students reference runner [⟨.openStream (scorer.streamPath reference), world⟩]
        (.done (.error (.io fault)))
  | begun {moments : List (Moment ρ)} {rest : Task (Except Failure GroupReport)} {stream : StreamId}
      (hstream : moments.findSome? Moment.stream? = some stream)
      (hfollowed : Task.Followed runner (scorer.callsOf stream reference students)
        (moments.filterMap Moment.issue?) rest) :
      Standing scorer students reference runner moments rest

theorem standing_of_leads {rest : Task (Except Failure GroupReport)}
    (h : (scorer.scoreGroup students reference).Leads runner moments rest) :
    scorer.Standing students reference runner moments rest := by
  have hgroup := scoreGroup_eq scorer students reference
  generalize htask : scorer.scoreGroup students reference = task at h
  cases h with
  | rest _ => exact htask ▸ .waiting
  | @step effect next reply world later _ hreply hrest =>
      rw [htask] at hgroup
      obtain ⟨rfl, hnext⟩ := Task.perform.inj hgroup
      cases hnext
      rcases hopen : world.files.openStream world.files.directory (scorer.streamPath reference) .truncate with
        fault | ⟨stream, opened⟩
      · simp only [Effect.perform, hopen] at hreply
        cases hreply
        cases hrest
        exact .unopened
      · simp only [Effect.perform, hopen] at hreply
        cases hreply
        have hstream : (⟨.openStream (scorer.streamPath reference), world⟩ :: later).findSome?
            Moment.stream? = some stream := by
          simp [Moment.stream?, hopen, Except.toOption]
        have hscript := (script_scoreStudents scorer stream reference 0 students).map (scorer.report reference)
        have hfollowed : Task.Followed runner (scorer.callsOf stream reference students)
          (later.filterMap Moment.issue?) rest := hscript.followed hrest
        exact .begun hstream hfollowed

end Scorer

end Assay
