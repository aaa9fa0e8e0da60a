import Assay.Files.Operations

/-!
# What a lookup reads

A lookup comes by some locations and looks at nothing else. Two file systems that are alike at these locations
give it the same way to go, however much they differ elsewhere; what it finds at the end is alike in the same
sense. How much alike is a relation `R` on nodes, which may leave the contents of files open.
-/

namespace Assay

/-- Nodes that a lookup cannot tell apart. -/
def Node.SameShape : Node → Node → Prop
  | .directory _, .directory _ => True
  | .file .., .file .. => True
  | .link target, .link other => target = other
  | _, _ => False

namespace Files

/-! ### The locations -/

def advanceReads (files : Files) : Location → List RawText → List Location
  | start, [] => [start]
  | start, segment :: rest =>
    if segment = "." then advanceReads files start rest
    else if segment = ".." then advanceReads files start.dropLast rest
    else if nameLimit < segment.size then []
    else
      let next := start ++ [segment]
      next ::
        match files.node? next with
        | some (.directory _) => advanceReads files next rest
        | _ => []

def walkReads (files : Files) (follow : Bool) : Nat → Location → List RawText → List Location
  | links, start, segments =>
    files.advanceReads start segments ++
      match files.advance follow start segments with
      | .redirected start segments =>
        match links with
        | 0 => []
        | links + 1 => walkReads files follow links start segments
      | _ => []

/-- The locations that `lookup` looks at. -/
def lookupReads (files : Files) (base : Location) (path : Path) (follow : Bool) : List Location :=
  if path.isAbsolute then files.walkReads follow linkLimit [] path.way
  else base :: files.walkReads follow linkLimit base path.way

section Name

variable {files : Files} {start : Location} {segment : RawText} (hhere : segment ≠ ".")
  (hup : segment ≠ "..") (hshort : ¬ nameLimit < segment.size)

include hhere hup hshort

theorem advanceReads_of_directory (rest : List RawText)
    (hnode : files.DirectoryAt (start ++ [segment])) :
    files.advanceReads start (segment :: rest) =
      [start ++ [segment]] ++ files.advanceReads (start ++ [segment]) rest := by
  obtain ⟨readable, hnode⟩ := hnode
  simp [advanceReads, hhere, hup, hshort, hnode]

/-- Nothing is looked at behind what is no directory. -/
theorem advanceReads_of_ne_directory (rest : List RawText)
    (hnode : ¬ files.DirectoryAt (start ++ [segment])) :
    files.advanceReads start (segment :: rest) = [start ++ [segment]] := by
  rw [advanceReads, if_neg hhere, if_neg hup, if_neg hshort]
  dsimp only
  split
  · next hdirectory => exact absurd ⟨_, hdirectory⟩ hnode
  · rfl

end Name

/-! ### Alike files -/

section Alike

variable {R : Node → Node → Prop} (hshape : ∀ left right, R left right → left.SameShape right)
  {files other : Files}

inductive PlacesAlike (R : Node → Node → Prop) : Place → Place → Prop
  | occupied (location : Location) {left right : Node} (h : R left right) :
      PlacesAlike R (.occupied location left) (.occupied location right)
  | vacant (location : Location) : PlacesAlike R (.vacant location) (.vacant location)

inductive WalksAlike (R : Node → Node → Prop) : Walk → Walk → Prop
  | arrived {left right : Place} (h : PlacesAlike R left right) :
      WalksAlike R (.arrived left) (.arrived right)
  | blocked (fault : Fault) : WalksAlike R (.blocked fault) (.blocked fault)
  | redirected (start : Location) (segments : List RawText) :
      WalksAlike R (.redirected start segments) (.redirected start segments)

inductive LookupsAlike (R : Node → Node → Prop) : Except Fault Place → Except Fault Place → Prop
  | found {left right : Place} (h : PlacesAlike R left right) :
      LookupsAlike R (.ok left) (.ok right)
  | refused (fault : Fault) : LookupsAlike R (.error fault) (.error fault)

include hshape

theorem advance_alike (follow : Bool) {start : Location} {segments : List RawText}
    (h : ∀ location ∈ files.advanceReads start segments,
      Option.Rel R (files.node? location) (other.node? location)) :
    WalksAlike R (files.advance follow start segments) (other.advance follow start segments) ∧
      files.advanceReads start segments = other.advanceReads start segments := by
  induction segments generalizing start with
  | nil =>
      have hstart := h start (List.mem_singleton_self start)
      simp only [advance, advanceReads, and_true]
      generalize files.node? start = left, other.node? start = right at hstart
      cases hstart with
      | some hnode => exact .arrived (.occupied start hnode)
      | none => exact .blocked .notFound
  | cons segment rest ih =>
      rw [advanceReads] at h
      rw [advance, advance, advanceReads, advanceReads]
      by_cases hhere : segment = "."
      · rw [if_pos hhere] at h
        simpa only [if_pos hhere] using ih h
      by_cases hup : segment = ".."
      · rw [if_neg hhere, if_pos hup] at h
        simpa only [if_neg hhere, if_pos hup] using ih h
      by_cases hlong : nameLimit < segment.size
      · simp only [if_neg hhere, if_neg hup, if_pos hlong, and_true]
        exact .blocked .nameTooLong
      simp only [if_neg hhere, if_neg hup, if_neg hlong] at h ⊢
      have hnext := h _ (List.mem_cons_self ..)
      have hlater := fun location hmem => h location (List.mem_cons_of_mem _ hmem)
      rcases hleft : files.node? (start ++ [segment]) with _ | left <;>
        rcases hright : other.node? (start ++ [segment]) with _ | right <;>
        rw [hleft, hright] at hnext <;> cases hnext
      · by_cases hlast : rest.isEmpty
        · simp only [if_pos hlast, and_true]
          exact .arrived (.vacant _)
        · simp only [if_neg hlast, and_true]
          exact .blocked .notFound
      · next hnode =>
        rw [hleft] at hlater
        have hsame := hshape left right hnode
        match left, right, hsame with
        | .directory _, .directory _, _ =>
            obtain ⟨hwalk, hreads⟩ := ih hlater
            exact ⟨hwalk, congrArg _ hreads⟩
        | .file .., .file .., _ =>
            by_cases hlast : rest.isEmpty
            · simp only [if_pos hlast, and_true]
              exact .arrived (.occupied _ hnode)
            · simp only [if_neg hlast, and_true]
              exact .blocked .notADirectory
        | .link target, .link _, rfl =>
            by_cases hstop : (rest.isEmpty && !follow) = true
            · simp only [if_pos hstop, and_true]
              exact .arrived (.occupied _ hnode)
            · simp only [if_neg hstop, and_true]
              exact .redirected _ _

theorem walk_alike (follow : Bool) {links : Nat} {start : Location} {segments : List RawText}
    (h : ∀ location ∈ files.walkReads follow links start segments,
      Option.Rel R (files.node? location) (other.node? location)) :
    LookupsAlike R (files.walk follow links start segments)
        (other.walk follow links start segments) ∧
      files.walkReads follow links start segments = other.walkReads follow links start segments := by
  induction links generalizing start segments with
  | zero =>
      unfold walkReads at h
      obtain ⟨hwalk, hreads⟩ := advance_alike hshape follow fun location hmem =>
        h location (List.mem_append_left _ hmem)
      unfold walk walkReads
      rw [hreads]
      generalize files.advance follow start segments = left,
        other.advance follow start segments = right at hwalk
      cases hwalk with
      | arrived hplace => exact ⟨.found hplace, rfl⟩
      | blocked fault => exact ⟨.refused fault, rfl⟩
      | redirected start segments => exact ⟨.refused .linkLoop, rfl⟩
  | succ links ih =>
      unfold walkReads at h
      obtain ⟨hwalk, hreads⟩ := advance_alike hshape follow fun location hmem =>
        h location (List.mem_append_left _ hmem)
      have hlater := fun location hmem => h location (List.mem_append_right _ hmem)
      unfold walk walkReads
      rw [hreads]
      revert hlater
      generalize files.advance follow start segments = left,
        other.advance follow start segments = right at hwalk
      intro hlater
      cases hwalk with
      | arrived hplace => exact ⟨.found hplace, rfl⟩
      | blocked fault => exact ⟨.refused fault, rfl⟩
      | redirected start segments =>
          obtain ⟨hrest, hmore⟩ := ih hlater
          exact ⟨hrest, congrArg _ hmore⟩

/-- Files that are alike wherever a lookup reads give it the same result, up to what is alike. -/
theorem lookup_alike {base : Location} {path : Path} {follow : Bool}
    (h : ∀ location ∈ files.lookupReads base path follow,
      Option.Rel R (files.node? location) (other.node? location)) :
    LookupsAlike R (files.lookup base path follow) (other.lookup base path follow) := by
  unfold lookup
  unfold lookupReads at h
  by_cases hnul : path.text.bytes.contains 0
  · simpa only [if_pos hnul] using .refused _
  by_cases hempty : path.text.isEmpty
  · simpa only [if_neg hnul, if_pos hempty] using .refused _
  by_cases hlong : pathLimit ≤ path.text.size
  · simpa only [if_neg hnul, if_neg hempty, if_pos hlong] using .refused _
  simp only [if_neg hnul, if_neg hempty, if_neg hlong]
  by_cases habsolute : path.isAbsolute
  · simp only [if_pos habsolute] at h ⊢
    exact (walk_alike hshape follow h).1
  simp only [if_neg habsolute] at h ⊢
  have hbase := h base (List.mem_cons_self ..)
  have hlater := fun location hmem => h location (List.mem_cons_of_mem _ hmem)
  have hiff : files.DirectoryAt base ↔ other.DirectoryAt base := by
    unfold DirectoryAt
    generalize files.node? base = left, other.node? base = right at hbase
    cases hbase with
    | none => simp
    | @some left right hnode =>
        have hsame := hshape left right hnode
        cases left <;> cases right <;> simp_all [Node.SameShape]
  by_cases hdirectory : files.DirectoryAt base
  · rw [if_pos hdirectory, if_pos (hiff.mp hdirectory)]
    exact (walk_alike hshape follow hlater).1
  · rw [if_neg hdirectory, if_neg fun hother => hdirectory (hiff.mpr hother)]
    exact .refused .notFound

end Alike

/-! ### Files with the same nodes -/

section Same

variable {files other : Files} {follow : Bool}

theorem sameShape_of_eq (left right : Node) (h : left = right) : left.SameShape right := by
  subst h
  cases left <;> simp [Node.SameShape]

theorem rel_of_node?_eq {reads : List Location}
    (h : ∀ read ∈ reads, other.node? read = files.node? read) :
    ∀ read ∈ reads, Option.Rel Eq (files.node? read) (other.node? read) := by
  intro read hread
  rw [h read hread]
  cases files.node? read with
  | none => exact .none
  | some node => exact .some rfl

theorem PlacesAlike.eq {left right : Place} (h : PlacesAlike Eq left right) : right = left := by
  cases h with
  | occupied location hnode => rw [hnode]
  | vacant location => rfl

theorem advance_eq {start : Location} {segments : List RawText}
    (h : ∀ read ∈ files.advanceReads start segments, other.node? read = files.node? read) :
    other.advance follow start segments = files.advance follow start segments := by
  have halike := (advance_alike sameShape_of_eq follow (rel_of_node?_eq h)).1
  generalize files.advance follow start segments = left,
    other.advance follow start segments = right at halike
  cases halike with
  | arrived hplace => rw [hplace.eq]
  | blocked fault => rfl
  | redirected start segments => rfl

/-- A lookup does not depend on anything but the nodes it reads. -/
theorem lookup_eq {base : Location} {path : Path}
    (h : ∀ read ∈ files.lookupReads base path follow, other.node? read = files.node? read) :
    other.lookup base path follow = files.lookup base path follow := by
  have halike := lookup_alike sameShape_of_eq (rel_of_node?_eq h)
  generalize files.lookup base path follow = left, other.lookup base path follow = right at halike
  cases halike with
  | found hplace => rw [hplace.eq]
  | refused fault => rfl

end Same

end Files

end Assay
