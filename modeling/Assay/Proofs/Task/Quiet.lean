import Assay.Proofs.Task.Course
import Mathlib.Data.List.Basic

/-!
# Tasks without their notes

What a task notes does not reach back to it, so it does the same with its notes left out. In this form two tasks
that differ in their notes alone are one task. A reply of which a task only makes a note is then a reply that it
does not look at, and of two runners that answer it differently the task does the same under both.
-/

namespace Assay

variable {α β ρ : Type}

namespace Issue

/-- Both runners do the same for this call. -/
def Same (left right : Runner ρ) (issue : Issue ρ) : Prop :=
  left issue.call issue.files issue.memory = right issue.call issue.files issue.memory

/-- Both runners come back from this call and leave the same behind, whatever they answer. -/
structure SameButAnswer (left right : Runner ρ) (issue : Issue ρ) : Prop where
  leftReturned : ∃ ending, issue.answer left = .ok ending
  rightReturned : ∃ ending, issue.answer right = .ok ending
  files : issue.filesAfter left = issue.filesAfter right
  memory : issue.memoryAfter left = issue.memoryAfter right

end Issue

/-- The runners do the same for all these calls, except that they may answer the first one differently. -/
def SameButFirst (left right : Runner ρ) : List (Issue ρ) → Prop
  | [] => True
  | first :: later => first.SameButAnswer left right ∧ ∀ issue ∈ later, issue.Same left right

theorem SameButFirst.of_append {left right : Runner ρ} {first later : List (Issue ρ)}
    (h : SameButFirst left right (first ++ later)) : SameButFirst left right first := by
  cases first with
  | nil => trivial
  | cons issue rest => exact ⟨h.1, fun other hother => h.2 other (List.mem_append_left _ hother)⟩

theorem SameButFirst.last {left right : Runner ρ} {earlier : List (Issue ρ)} {issue : Issue ρ}
    (h : SameButFirst left right (earlier ++ [issue])) :
    if earlier = [] then issue.SameButAnswer left right else issue.Same left right := by
  cases earlier with
  | nil => exact h.1
  | cons first rest =>
      rw [if_neg (List.cons_ne_nil _ _)]
      exact h.2 issue (List.mem_append_right _ (List.mem_singleton_self _))

namespace World.SameState

variable {left right other : World ρ}

protected theorem refl (world : World ρ) : world.SameState world := ⟨rfl, rfl⟩

protected theorem symm (h : left.SameState right) : right.SameState left := ⟨h.files.symm, h.memory.symm⟩

protected theorem trans (h : left.SameState right) (hother : right.SameState other) :
    left.SameState other :=
  ⟨h.files.trans hother.files, h.memory.trans hother.memory⟩

end World.SameState

/-- What is done at this moment, with which files and which memory. To note something is to do nothing. -/
def Moment.deed? : Moment ρ → Option (Effect × Files × ρ)
  | ⟨.note _, _⟩ => none
  | ⟨effect, world⟩ => some (effect, world.files, world.memory)

theorem Moment.eq_of_deed? {moment other : Moment ρ} {deed : Effect × Files × ρ}
    (h : moment.deed? = some deed) (hother : other.deed? = some deed) :
    moment.effect = other.effect ∧ moment.world.files = other.world.files := by
  have hdeed : ∀ {moment : Moment ρ}, moment.deed? = some deed →
      moment.effect = deed.1 ∧ moment.world.files = deed.2.1 := by
    rintro ⟨effect, world⟩ hsome
    cases effect <;> cases hsome <;> exact ⟨rfl, rfl⟩
  exact ⟨(hdeed h).1.trans (hdeed hother).1.symm, (hdeed h).2.trans (hdeed hother).2.symm⟩

def issueOfDeed? : Effect × Files × ρ → Option (Issue ρ)
  | (.run call, files, memory) => some ⟨call, files, memory⟩
  | _ => none

namespace Effect

def isNote : Effect → Bool
  | note _ => true
  | _ => false

variable {left right : Runner ρ} {effect : Effect} {world other : World ρ}

theorem deed?_sameState (hstate : world.SameState other) :
    Moment.deed? ⟨effect, world⟩ = Moment.deed? ⟨effect, other⟩ := by
  cases effect <;> simp [Moment.deed?, hstate.files, hstate.memory]

theorem perform_same (h : ∀ call, effect = .run call →
      (⟨call, world.files, world.memory⟩ : Issue ρ).Same left right)
    (hstate : world.SameState other) :
    (effect.perform left world).1 = (effect.perform right other).1 ∧
      (effect.perform left world).2.SameState (effect.perform right other).2 := by
  have hrunner : effect.perform left world = effect.perform right world := by
    cases effect with
    | run call =>
        have hsame : left call world.files world.memory = right call world.files world.memory :=
          h call rfl
        simp only [perform, hsame]
    | _ => rfl
  rw [hrunner]
  exact perform_sameState right hstate effect

theorem perform_sameButAnswer {call : Call}
    (h : (⟨call, world.files, world.memory⟩ : Issue ρ).SameButAnswer left right)
    (hstate : world.SameState other) :
    ∃ ending ending' after after', (run call).perform left world = (.ok ending, after) ∧
      (run call).perform right other = (.ok ending', after') ∧ after.SameState after' := by
  obtain ⟨ending, hending⟩ := h.leftReturned
  obtain ⟨ending', hending'⟩ := h.rightReturned
  rw [Issue.answer] at hending hending'
  refine ⟨ending, ending', _, _, Prod.ext hending rfl, Prod.ext ?_ rfl, ?_, ?_⟩
  · simp only [perform, ← hstate.files, ← hstate.memory]
    exact hending'
  · simp only [perform, ← hstate.files, ← hstate.memory]
    exact h.files
  · simp only [perform, ← hstate.files, ← hstate.memory]
    exact h.memory

end Effect

namespace Task

/-- The same task, but nothing is noted. -/
def quiet : Task α → Task α
  | done value => done value
  | perform (.note _) next => (next ()).quiet
  | perform effect next => perform effect fun reply => (next reply).quiet

def isNoting : Task α → Bool
  | perform effect _ => effect.isNote
  | done _ => false

@[simp]
theorem quiet_done (value : α) : (done value).quiet = done value := rfl

theorem quiet_perform {effect : Effect} (h : effect.isNote = false) (next : effect.Reply → Task α) :
    (perform effect next).quiet = perform effect fun reply => (next reply).quiet := by
  cases effect with
  | note event => cases h
  | _ => rfl

@[simp]
theorem quiet_note_bind (level : Level) (message : String) (fields : List (String × String))
    (next : Unit → Task α) : ((note level message fields).bind next).quiet = (next ()).quiet := rfl

@[simp]
theorem quiet_call_bind (call : Call) (next : Ending → Task α) :
    ((Task.call call).bind next).quiet = perform (.run call) fun reply => (next reply).quiet := rfl

/-- A task that notes nothing at first asks for what it asks for without its notes. -/
theorem eq_perform_of_quiet {task : Task α} (hnoting : task.isNoting = false) {effect : Effect}
    {next : effect.Reply → Task α} (h : task.quiet = perform effect next) :
    ∃ rest : effect.Reply → Task α, task = perform effect rest ∧
      ∀ reply, (rest reply).quiet = next reply := by
  cases task with
  | done value => cases h
  | perform other rest =>
      rw [quiet_perform hnoting] at h
      injection h with heffect hrest
      subst heffect
      exact ⟨rest, rfl, congrFun (eq_of_heq hrest)⟩

theorem eq_done_of_quiet {task : Task α} (hnoting : task.isNoting = false) {value : α}
    (h : task.quiet = done value) : task = done value := by
  cases task with
  | done other => exact h
  | perform effect rest =>
      rw [quiet_perform hnoting] at h
      cases h

/-! ### Deeds -/

variable (runner : Runner ρ)

def deeds (task : Task α) (world : World ρ) : List (Effect × Files × ρ) :=
  (task.moments runner world).filterMap Moment.deed?

theorem issues_eq_deeds (task : Task α) (world : World ρ) :
    task.issues runner world = (task.deeds runner world).filterMap issueOfDeed? := by
  rw [issues, deeds, List.filterMap_filterMap]
  congr
  funext moment
  obtain ⟨effect, world⟩ := moment
  cases effect <;> rfl

theorem deeds_perform (effect : Effect) (next : effect.Reply → Task α) (world : World ρ) :
    (perform effect next).deeds runner world =
      (Moment.deed? ⟨effect, world⟩).toList ++
        match effect.perform runner world with
        | (.ok reply, world) => (next reply).deeds runner world
        | (.error _, _) => [] := by
  rw [deeds, moments, List.filterMap_cons]
  rcases Moment.deed? ⟨effect, world⟩ with _ | deed <;>
    rcases effect.perform runner world with ⟨panic | reply, after⟩ <;> rfl

theorem issues_perform (effect : Effect) (next : effect.Reply → Task α) (world : World ρ) :
    (perform effect next).issues runner world =
      (Moment.issue? ⟨effect, world⟩).toList ++
        match effect.perform runner world with
        | (.ok reply, world) => (next reply).issues runner world
        | (.error _, _) => [] := by
  rw [issues, moments, List.filterMap_cons]
  rcases Moment.issue? ⟨effect, world⟩ with _ | issue <;>
    rcases effect.perform runner world with ⟨panic | reply, after⟩ <;> rfl

/-- Run alone, the tasks do the same in the same order, come to the same result and leave the same behind. -/
structure Agree (left right : Runner ρ) (first second : Task α) (world other : World ρ) : Prop where
  deeds : first.deeds left world = second.deeds right other
  result : (first.run left world).1 = (second.run right other).1
  state : (first.run left world).2.SameState (second.run right other).2

namespace Agree

variable {left right third : Runner ρ} {task second last : Task α} {world other later : World ρ}

theorem symm (h : Agree left right task second world other) :
    Agree right left second task other world :=
  ⟨h.deeds.symm, h.result.symm, h.state.symm⟩

theorem trans (h : Agree left right task second world other)
    (hlast : Agree right third second last other later) : Agree left third task last world later :=
  ⟨h.deeds.trans hlast.deeds, h.result.trans hlast.result, h.state.trans hlast.state⟩

theorem issues (h : Agree left right task second world other) :
    task.issues left world = second.issues right other := by
  rw [issues_eq_deeds, h.deeds, ← issues_eq_deeds]

/-- One effect that is the same, and what follows. -/
theorem perform {effect effect' : Effect} {next : effect.Reply → Task α}
    {next' : effect'.Reply → Task α} {reply : effect.Reply} {reply' : effect'.Reply} {after after' : World ρ}
    (hdeed : Moment.deed? ⟨effect, world⟩ = Moment.deed? ⟨effect', other⟩)
    (hleft : effect.perform left world = (.ok reply, after))
    (hright : effect'.perform right other = (.ok reply', after'))
    (h : Agree left right (next reply) (next' reply') after after') :
    Agree left right (.perform effect next) (.perform effect' next') world other := by
  refine ⟨?_, ?_, ?_⟩
  · rw [deeds_perform, deeds_perform, hdeed, hleft, hright]
    exact congrArg _ h.deeds
  · rw [run, run, hleft, hright]
    exact h.result
  · rw [run, run, hleft, hright]
    exact h.state

theorem panic {effect : Effect} {next next' : effect.Reply → Task α} {panic : Panic}
    {after after' : World ρ} (hstate : world.SameState other)
    (hleft : effect.perform left world = (.error panic, after))
    (hright : effect.perform right other = (.error panic, after')) (hafter : after.SameState after') :
    Agree left right (.perform effect next) (.perform effect next') world other := by
  refine ⟨?_, ?_, ?_⟩
  · rw [deeds_perform, deeds_perform, Effect.deed?_sameState hstate, hleft, hright]
  · rw [run, run, hleft, hright]
  · rw [run, run, hleft, hright]
    exact hafter

end Agree

/-- A task does the same without its notes. -/
theorem agree_quiet {world other : World ρ} (h : world.SameState other) (task : Task α) :
    Agree runner runner task.quiet task world other := by
  induction task generalizing world other with
  | done value => exact ⟨rfl, rfl, h⟩
  | perform effect rest ih =>
      by_cases hnote : effect.isNote = true
      · cases effect with
        | note event =>
            have hnoted : world.SameState (other.note event) := ⟨h.files, h.memory⟩
            have hrest := ih () hnoted
            exact ⟨hrest.deeds, hrest.result, hrest.state⟩
        | _ => cases hnote
      · rw [quiet_perform (Bool.eq_false_iff.mpr hnote)]
        obtain ⟨hreply, hstate⟩ := Effect.perform_sameState runner h effect
        rcases hleft : effect.perform runner world with ⟨panic | reply, world'⟩ <;>
          rcases hright : effect.perform runner other with ⟨panic' | reply', other'⟩ <;>
          rw [hleft, hright] at hreply hstate <;> cases hreply
        · exact .panic h hleft hright hstate
        · exact .perform (Effect.deed?_sameState h) hleft hright (ih reply hstate)

/-! ### Two runners -/

variable {left right : Runner ρ}

theorem agree_of_same {world other : World ρ} (hstate : world.SameState other) {task : Task α}
    (h : ∀ issue ∈ task.issues left world, issue.Same left right) :
    Agree left right task task world other := by
  induction task generalizing world other with
  | done value => exact ⟨rfl, rfl, hstate⟩
  | perform effect rest ih =>
      rw [issues_perform] at h
      have hfirst : ∀ call, effect = .run call →
          (⟨call, world.files, world.memory⟩ : Issue ρ).Same left right := by
        rintro call rfl
        exact h _ (List.mem_append_left _ (List.mem_singleton_self _))
      obtain ⟨hreply, hafter⟩ := Effect.perform_same hfirst hstate
      rcases hleft : effect.perform left world with ⟨panic | reply, world'⟩ <;>
        rcases hright : effect.perform right other with ⟨panic' | reply', other'⟩ <;>
        rw [hleft, hright] at hreply hafter <;> cases hreply
      · exact .panic hstate hleft hright hafter
      · rw [hleft] at h
        refine .perform (Effect.deed?_sameState hstate) hleft hright (ih reply hafter ?_)
        exact fun issue hissue => h issue (List.mem_append_right _ hissue)

/-- The task runs a command first, and what it does then does not depend on the reply. -/
def Heedless (task : Task α) (call : Call) : Prop :=
  ∃ rest : Task α, task.quiet = .perform (.run call) fun _ => rest

theorem Heedless.issues_eq {task : Task α} {call : Call} (h : task.Heedless call) (world : World ρ) :
    ∃ later, task.issues left world = ⟨call, world.files, world.memory⟩ :: later := by
  obtain ⟨rest, hquiet⟩ := h
  rw [← (agree_quiet left (.refl world) task).issues, hquiet, issues_perform]
  exact ⟨_, rfl⟩

/-- Under both runners the task does the same, if they differ in nothing but the reply to its first call. -/
theorem Heedless.agree {task : Task α} {call : Call} (h : task.Heedless call) {world other : World ρ}
    (hstate : world.SameState other) (hsame : SameButFirst left right (task.issues left world)) :
    Agree left right task task world other := by
  obtain ⟨rest, hquiet⟩ := h
  have hleft := agree_quiet left (.refl world) task
  have hright := agree_quiet right (.refl other) task
  rw [← hleft.issues] at hsame
  rw [hquiet] at hleft hright hsame
  rw [issues_perform] at hsame
  obtain ⟨hfirst, hlater⟩ := hsame
  obtain ⟨ending, ending', after, after', hanswer, hanswer', hafter⟩ :=
    Effect.perform_sameButAnswer hfirst hstate
  simp only [hanswer] at hlater
  have hrest : Agree left right rest rest after after' := agree_of_same hafter hlater
  exact hleft.symm.trans ((Agree.perform (Effect.deed?_sameState hstate) hanswer hanswer' hrest).trans hright)

end Task

end Assay
