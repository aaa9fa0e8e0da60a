import Assay.Proofs.Task.Moments

/-!
# The course of a task

What somebody who watches a task from outside can tell: which calls it makes, which stages it says it has
come to, how it ends, and the files and the memory it leaves. What was noted before plays no part in that,
so a course is a function of files and memory alone and the courses of stages can be put one after the other.
-/

namespace Assay

/-- The event says how far a submission has come, or that it is done. -/
def Event.isMark (event : Event) : Bool :=
  event.message = "State changed" || event.message = "Pipeline finished"

/-- What is seen of a task from outside. -/
structure Course (ρ α : Type) where
  issues : List (Issue ρ)
  marks : List Event
  result : Except Panic α
  files : Files
  memory : ρ

namespace Course

variable {α β ρ : Type}

/-- One course and, where it comes to a value, the next one after it. -/
def andThen (course : Course ρ α) (next : α → Files → ρ → Course ρ β) : Course ρ β :=
  match course.result with
  | .error panic => { course with result := .error panic }
  | .ok value =>
    let rest := next value course.files course.memory
    { rest with issues := course.issues ++ rest.issues, marks := course.marks ++ rest.marks }

end Course

/-- The worlds differ at most in what was noted. -/
structure World.SameState {ρ : Type} (left right : World ρ) : Prop where
  files : left.files = right.files
  memory : left.memory = right.memory

namespace Effect

variable {ρ : Type} {left right : World ρ}

theorem perform_sameState (runner : Runner ρ) (h : left.SameState right) (effect : Effect) :
    (effect.perform runner left).1 = (effect.perform runner right).1 ∧
      (effect.perform runner left).2.SameState (effect.perform runner right).2 := by
  obtain ⟨files, memory, _⟩ := left
  obtain ⟨hfiles, hmemory⟩ := h
  simp only at hfiles hmemory
  subst hfiles hmemory
  cases effect with
  | run call => exact ⟨rfl, rfl, rfl⟩
  | ensureDirectory path => exact ⟨rfl, rfl, rfl⟩
  | listFiles path => exact ⟨rfl, rfl, rfl⟩
  | openStream path =>
      simp only [perform]
      cases right.files.openStream right.files.directory path .truncate with
      | ok opened => exact ⟨rfl, rfl, rfl⟩
      | error fault => exact ⟨rfl, rfl, rfl⟩
  | note event => exact ⟨rfl, rfl, rfl⟩

end Effect

namespace Task

variable {α β ρ : Type} (runner : Runner ρ)

def course (task : Task α) (files : Files) (memory : ρ) : Course ρ α :=
  let world : World ρ := .start files memory
  { issues := task.issues runner world
    marks := (task.notes runner world).filter Event.isMark
    result := (task.run runner world).1
    files := (task.run runner world).2.files
    memory := (task.run runner world).2.memory }

theorem sameState_run {left right : World ρ} (h : left.SameState right) (task : Task α) :
    task.issues runner left = task.issues runner right ∧
      task.notes runner left = task.notes runner right ∧
      (task.run runner left).1 = (task.run runner right).1 ∧
      (task.run runner left).2.SameState (task.run runner right).2 := by
  induction task generalizing left right with
  | done value => exact ⟨rfl, rfl, rfl, h⟩
  | perform effect rest ih =>
      have hissue : Moment.issue? ⟨effect, left⟩ = Moment.issue? ⟨effect, right⟩ := by
        cases effect <;> simp [Moment.issue?, h.files, h.memory]
      have hnote : Moment.event? ⟨effect, left⟩ = Moment.event? ⟨effect, right⟩ := by
        cases effect <;> rfl
      obtain ⟨hreply, hstate⟩ := Effect.perform_sameState runner h effect
      simp only [issues, notes, moments, run, List.filterMap_cons, hissue, hnote]
      rcases hleft : effect.perform runner left with ⟨panic | reply, left'⟩ <;>
        rcases hright : effect.perform runner right with ⟨panic' | reply', right'⟩ <;>
        rw [hleft, hright] at hreply hstate <;> cases hreply
      · exact ⟨rfl, rfl, rfl, hstate⟩
      · obtain ⟨hissues, hnotes, hresult, hafter⟩ := ih reply hstate
        simp only [issues, notes] at hissues hnotes
        exact ⟨by rw [hissues], by rw [hnotes], hresult, hafter⟩

theorem course_eq (task : Task α) (world : World ρ) :
    task.course runner world.files world.memory =
      { issues := task.issues runner world
        marks := (task.notes runner world).filter Event.isMark
        result := (task.run runner world).1
        files := (task.run runner world).2.files
        memory := (task.run runner world).2.memory } := by
  have hstate : (World.start world.files world.memory).SameState world := ⟨rfl, rfl⟩
  obtain ⟨hissues, hnotes, hresult, hfiles, hmemory⟩ := sameState_run runner hstate task
  simp only [course, hissues, hnotes, hresult, hfiles, hmemory]

theorem course_bind (task : Task α) (next : α → Task β) (files : Files) (memory : ρ) :
    (task.bind next).course runner files memory =
      (task.course runner files memory).andThen fun value => (next value).course runner := by
  rw [course, issues_bind, notes_bind, run_bind, Course.andThen]
  rcases hrun : task.run runner (.start files memory) with ⟨panic | value, world⟩
  · simp [course, hrun]
  · have hnext := course_eq runner (next value) world
    simp [course, hrun] at hnext ⊢
    simp [hnext]

@[simp]
theorem course_done (value : α) (files : Files) (memory : ρ) :
    (done value).course runner files memory = ⟨[], [], .ok value, files, memory⟩ := rfl

theorem course_ask (effect : Effect) (files : Files) (memory : ρ) :
    (ask effect).course runner files memory =
      let world : World ρ := .start files memory
      { issues := (Moment.issue? ⟨effect, world⟩).toList
        marks := (Moment.event? ⟨effect, world⟩).toList.filter Event.isMark
        result := (effect.perform runner world).1
        files := (effect.perform runner world).2.files
        memory := (effect.perform runner world).2.memory } := by
  simp only [course, ask, issues, notes, moments, run, List.filterMap_cons]
  rcases effect.perform runner (.start files memory) with ⟨panic | reply, world⟩ <;>
    cases effect <;> rfl

@[simp]
theorem course_call (call : Call) (files : Files) (memory : ρ) :
    (Task.call call).course runner files memory =
      let issue : Issue ρ := ⟨call, files, memory⟩
      ⟨[issue], [], issue.answer runner, issue.filesAfter runner, issue.memoryAfter runner⟩ :=
  course_ask runner (.run call) files memory

@[simp]
theorem course_ensureDirectory (path : Path) (files : Files) (memory : ρ) :
    (Task.ensureDirectory path).course runner files memory =
      let made := files.ensureDirectory files.directory path
      ⟨[], [], .ok made.1, made.2, memory⟩ :=
  course_ask runner (.ensureDirectory path) files memory

@[simp]
theorem course_listFiles (directory : Path) (files : Files) (memory : ρ) :
    (Task.listFiles directory).course runner files memory =
      ⟨[], [], .ok (files.listFiles files.directory directory), files, memory⟩ :=
  course_ask runner (.listFiles directory) files memory

@[simp]
theorem course_note (level : Level) (message : String) (fields : List (String × String))
    (files : Files) (memory : ρ) :
    (Task.note level message fields).course runner files memory =
      ⟨[], [({ level, message, fields } : Event)].filter Event.isMark, .ok (), files, memory⟩ :=
  course_ask runner (.note { level, message, fields }) files memory

end Task

end Assay
