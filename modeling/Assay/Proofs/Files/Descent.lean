import Assay.Proofs.Files.Growth

/-!
# The way to a directory

Names that have others after them lead to the same directory whatever those others are. Links are why this is
not plain to see: a walk starts again at each of them, with what is left of the names behind the target.
-/

namespace Assay

namespace Files

variable {files : Files}

/-- The location and all those above it are directories. -/
def Standing (files : Files) (location : Location) : Prop :=
  ∀ above, above <+: location → files.DirectoryAt above

theorem standing_nil (files : Files) : files.Standing [] := by
  intro above habove
  rw [List.prefix_nil.mp habove]
  exact files.directoryAt_nil

theorem Standing.directoryAt {location : Location} (h : files.Standing location) :
    files.DirectoryAt location :=
  h location List.prefix_rfl

theorem Standing.dropLast {location : Location} (h : files.Standing location) :
    files.Standing location.dropLast := by
  intro above habove
  exact h above (habove.trans (List.dropLast_prefix location))

theorem Standing.concat {location : Location} {name : RawText} (h : files.Standing location)
    (hnode : files.DirectoryAt (location ++ [name])) :
    files.Standing (location ++ [name]) := by
  intro above habove
  rcases List.prefix_concat_iff.mp habove with rfl | hshort
  · exact hnode
  · exact h above hshort

/-! ### One piece of a walk -/

/-- How a piece of a walk takes names that have others after them. -/
inductive Descent (files : Files) (start : Location) (first : List RawText) : Prop
  | reached (location : Location) (hstanding : files.Standing start → files.Standing location)
      (hadvance : ∀ follow rest, rest ≠ [] →
        files.advance follow start (first ++ rest) = files.advance follow location rest)
  | blocked (fault : Fault)
      (hadvance : ∀ follow rest, rest ≠ [] →
        files.advance follow start (first ++ rest) = .blocked fault)
  | redirected (again : Location) (names : List RawText)
      (hstanding : files.Standing start → files.Standing again)
      (hadvance : ∀ follow rest, rest ≠ [] →
        files.advance follow start (first ++ rest) = .redirected again (names ++ rest))

theorem Descent.step {start next : Location} {segment : RawText} {first : List RawText}
    (h : Descent files next first) (hstanding : files.Standing start → files.Standing next)
    (hadvance : ∀ follow rest,
      files.advance follow start (segment :: rest) = files.advance follow next rest) :
    Descent files start (segment :: first) := by
  cases h with
  | reached location hkept hfirst =>
      refine .reached location (hkept ∘ hstanding) fun follow rest hrest => ?_
      rw [List.cons_append, hadvance, hfirst follow rest hrest]
  | blocked fault hfirst =>
      refine .blocked fault fun follow rest hrest => ?_
      rw [List.cons_append, hadvance, hfirst follow rest hrest]
  | redirected again names hkept hfirst =>
      refine .redirected again names (hkept ∘ hstanding) fun follow rest hrest => ?_
      rw [List.cons_append, hadvance, hfirst follow rest hrest]

theorem descent (files : Files) (start : Location) (first : List RawText) :
    Descent files start first := by
  induction first generalizing start with
  | nil => exact .reached start id fun _ _ _ => rfl
  | cons segment first ih =>
      by_cases hhere : segment = "."
      · exact (ih start).step id fun follow rest => by rw [advance, if_pos hhere]
      by_cases hup : segment = ".."
      · exact (ih start.dropLast).step Standing.dropLast fun follow rest => by
          rw [advance, if_neg hhere, if_pos hup]
      by_cases hlong : nameLimit < segment.size
      · refine .blocked .nameTooLong fun follow rest _ => ?_
        rw [List.cons_append, advance, if_neg hhere, if_neg hup, if_pos hlong]
      -- What is found below matters, and names that have others after them are never the last ones.
      have hmore (rest : List RawText) (hrest : rest ≠ []) : (first ++ rest).isEmpty = false := by
        simp [hrest]
      rcases hnode : files.node? (start ++ [segment]) with _ | readable | _ | target
      · refine .blocked .notFound fun follow rest hrest => ?_
        simp [advance, hhere, hup, hlong, hnode, hrest]
      · exact (ih (start ++ [segment])).step (fun h => h.concat ⟨readable, hnode⟩) fun follow rest => by
          simp [advance, hhere, hup, hlong, hnode]
      · refine .blocked .notADirectory fun follow rest hrest => ?_
        simp [advance, hhere, hup, hlong, hnode, hrest]
      · refine .redirected (if target.isAbsolute then [] else start)
          (target.way ++ first) ?_ ?_
        · intro hstart
          split
          · exact standing_nil files
          · exact hstart
        · intro follow rest hrest
          simp [advance, hhere, hup, hlong, hnode, hmore rest hrest]

/-! ### Whole walks -/

/-- Where names lead that have others after them, and how many links may still be followed there. -/
inductive Leads (files : Files) (links : Nat) (start : Location) (first : List RawText) : Prop
  | reached (left : Nat) (location : Location)
      (hstanding : files.Standing start → files.Standing location)
      (hwalk : ∀ follow rest, rest ≠ [] →
        files.walk follow links start (first ++ rest) = files.walk follow left location rest)
  | refused (fault : Fault)
      (hwalk : ∀ follow rest, rest ≠ [] →
        files.walk follow links start (first ++ rest) = .error fault)

theorem walk_of_advance_eq {follow : Bool} {start other : Location} {segments names : List RawText}
    (h : files.advance follow start segments = files.advance follow other names) (links : Nat) :
    files.walk follow links start segments = files.walk follow links other names := by
  unfold walk
  rw [h]

theorem leads (files : Files) (links : Nat) (start : Location) (first : List RawText) :
    Leads files links start first := by
  induction links generalizing start first with
  | zero =>
      cases descent files start first with
      | reached location hstanding hadvance =>
          exact .reached 0 location hstanding fun follow rest hrest =>
            walk_of_advance_eq (hadvance follow rest hrest) 0
      | blocked fault hadvance =>
          refine .refused fault fun follow rest hrest => ?_
          rw [walk, hadvance follow rest hrest]
      | redirected again names hstanding hadvance =>
          refine .refused .linkLoop fun follow rest hrest => ?_
          rw [walk, hadvance follow rest hrest]
  | succ links ih =>
      cases descent files start first with
      | reached location hstanding hadvance =>
          exact .reached (links + 1) location hstanding fun follow rest hrest =>
            walk_of_advance_eq (hadvance follow rest hrest) (links + 1)
      | blocked fault hadvance =>
          refine .refused fault fun follow rest hrest => ?_
          rw [walk, hadvance follow rest hrest]
      | redirected again names hstanding hadvance =>
          have hagain (follow : Bool) (rest : List RawText) (hrest : rest ≠ []) :
              files.walk follow (links + 1) start (first ++ rest) =
                files.walk follow links again (names ++ rest) := by
            rw [walk, hadvance follow rest hrest]
          cases ih again names with
          | reached left location hkept hwalk =>
              refine .reached left location (hkept ∘ hstanding) fun follow rest hrest => ?_
              rw [hagain follow rest hrest, hwalk follow rest hrest]
          | refused fault hwalk =>
              refine .refused fault fun follow rest hrest => ?_
              rw [hagain follow rest hrest, hwalk follow rest hrest]

/-! ### Asking for a directory -/

/-- What a piece of a walk comes to, without and with a `.` at the end. -/
inductive AsksDirectory : Walk → Walk → Prop
  | same (place : Place) : AsksDirectory (.arrived place) (.arrived place)
  | blocked (fault : Fault) : AsksDirectory (.blocked fault) (.blocked fault)
  | refused {place : Place} (fault : Fault)
      (hplace : ∀ location readable, place ≠ .occupied location (.directory readable)) :
      AsksDirectory (.arrived place) (.blocked fault)
  | redirected (again : Location) (names : List RawText) :
      AsksDirectory (.redirected again names) (.redirected again (names ++ [("." : RawText)]))

theorem advance_here (files : Files) (start : Location) (segments : List RawText) :
    AsksDirectory (files.advance true start segments)
      (files.advance true start (segments ++ [("." : RawText)])) := by
  induction segments generalizing start with
  | nil =>
      cases hnode : files.node? start with
      | none => simpa [advance, hnode] using .blocked _
      | some node => simpa [advance, hnode] using .same _
  | cons segment rest ih =>
      rw [List.cons_append, advance, advance]
      by_cases hhere : segment = "."
      · simpa only [if_pos hhere] using ih start
      by_cases hup : segment = ".."
      · simpa only [if_neg hhere, if_pos hup] using ih start.dropLast
      by_cases hlong : nameLimit < segment.size
      · simpa only [if_neg hhere, if_neg hup, if_pos hlong] using .blocked _
      simp only [if_neg hhere, if_neg hup, if_neg hlong]
      rcases files.node? (start ++ [segment]) with _ | _ | ⟨id, content, executable⟩ | target
      · cases rest with
        | nil => exact .refused _ fun location readable => by simp
        | cons name rest => exact .blocked _
      · exact ih (start ++ [segment])
      · cases rest with
        | nil => exact .refused _ fun location readable => by simp
        | cons name rest => exact .blocked _
      · simp only [Bool.not_true, Bool.and_false, Bool.false_eq_true, if_false, ← List.append_assoc]
        exact .redirected _ _

theorem walk_here_iff {links : Nat} {start location : Location} {segments : List RawText}
    {readable : Bool} :
    files.walk true links start (segments ++ [("." : RawText)]) = .ok (.occupied location (.directory readable)) ↔
      files.walk true links start segments = .ok (.occupied location (.directory readable)) := by
  induction links generalizing start segments with
  | zero =>
      have hasks := advance_here files start segments
      unfold walk
      generalize files.advance true start segments = left,
        files.advance true start (segments ++ [("." : RawText)]) = right at hasks
      cases hasks with
      | same place => rfl
      | blocked fault => rfl
      | refused fault hplace => simp [hplace location readable]
      | redirected again names => rfl
  | succ links ih =>
      have hasks := advance_here files start segments
      unfold walk
      generalize files.advance true start segments = left,
        files.advance true start (segments ++ [("." : RawText)]) = right at hasks
      cases hasks with
      | same place => rfl
      | blocked fault => rfl
      | refused fault hplace => simp [hplace location readable]
      | redirected again names => exact ih

theorem walk_of_walk_append {links : Nat} {start : Location} {first rest : List RawText}
    {place : Place} (hstart : files.Standing start) (hrest : rest ≠ [])
    (h : files.walk true links start (first ++ rest) = .ok place) :
    ∃ location readable,
      files.walk true links start first = .ok (.occupied location (.directory readable)) := by
  cases leads files links start first with
  | refused fault hwalk =>
      rw [hwalk true rest hrest] at h
      cases h
  | reached left location hstanding hwalk =>
      obtain ⟨readable, hnode⟩ := (hstanding hstart).directoryAt
      refine ⟨location, readable, walk_here_iff.mp ?_⟩
      have hhere : files.advance true location [("." : RawText)] =
          .arrived (.occupied location (.directory readable)) := by
        simp [advance, hnode]
      rw [hwalk true [("." : RawText)] (List.cons_ne_nil _ _), walk, hhere]

end Files

end Assay
