import Assay.Proofs.Files.Made

/-!
# Where names lead

What a lookup comes to is a matter of the nodes alone: each name leads on to what is there under it, and a link to
what its target leads to. How many links there are on the way is counted, since a lookup follows only so many. A
way can be taken apart anywhere, and what stands behind a directory leads on from there.
-/

namespace Assay

namespace Files

variable {files : Files}

/-- What a directory can have something under. -/
structure IsName (segment : RawText) : Prop where
  ne_here : segment ≠ "."
  ne_up : segment ≠ ".."
  short : segment.size ≤ nameLimit

/-- The names lead from `start` to `location`, by way of so many links. Every place on the way has to have room for the
names that follow it; a link is followed whatever they are. -/
inductive Follows (files : Files) (room : Location → List RawText → Prop) :
    Nat → Location → List RawText → Location → Prop
  | arrived (location : Location) : Follows files room 0 location [] location
  | here {links : Nat} {start location : Location} {segment : RawText} {rest : List RawText}
      (hhere : segment = ".") (h : Follows files room links start rest location) :
      Follows files room links start (segment :: rest) location
  | up {links : Nat} {start location : Location} {segment : RawText} {rest : List RawText}
      (hup : segment = "..") (h : Follows files room links start.dropLast rest location) :
      Follows files room links start (segment :: rest) location
  | directory {links : Nat} {start location : Location} {segment : RawText} {rest : List RawText}
      (hname : IsName segment) (hdirectory : files.DirectoryAt (start ++ [segment]))
      (hroom : room (start ++ [segment]) rest) (h : Follows files room links (start ++ [segment]) rest location) :
      Follows files room links start (segment :: rest) location
  | file {start : Location} {segment : RawText} {id : FileId} {content : Bytes} {executable : Bool}
      (hname : IsName segment)
      (hnode : files.node? (start ++ [segment]) = some (.file id content executable))
      (hroom : room (start ++ [segment]) []) : Follows files room 0 start [segment] (start ++ [segment])
  | link {links : Nat} {start location : Location} {segment : RawText} {rest : List RawText} {target : Path}
      (hname : IsName segment) (hnode : files.node? (start ++ [segment]) = some (.link target))
      (hroom : room (start ++ [segment]) [])
      (h : Follows files room links (if target.isAbsolute then [] else start) (target.way ++ rest) location) :
      Follows files room (links + 1) start (segment :: rest) location

/-- There is room for everything. -/
def Anywhere (_ : Location) (_ : List RawText) : Prop := True

theorem anywhere (location : Location) (rest : List RawText) : Anywhere location rest := trivial

variable {room : Location → List RawText → Prop}

/-! ### One name -/

section Name

variable {links : Nat} {start location : Location} {segment : RawText} {rest : List RawText}

theorem follows_nil_iff : files.Follows room links start [] location ↔ links = 0 ∧ location = start := by
  constructor
  · rintro ⟨⟩
    exact ⟨rfl, rfl⟩
  · rintro ⟨rfl, rfl⟩
    exact .arrived _

theorem follows_here_iff (hhere : segment = ".") :
    files.Follows room links start (segment :: rest) location ↔
      files.Follows room links start rest location := by
  constructor
  · intro h
    cases h with
    | here _ h => exact h
    | up hup => exact absurd (hhere.symm.trans hup) (by decide)
    | directory hname => exact absurd hhere hname.ne_here
    | file hname => exact absurd hhere hname.ne_here
    | link hname => exact absurd hhere hname.ne_here
  · exact .here hhere

theorem follows_up_iff (hup : segment = "..") :
    files.Follows room links start (segment :: rest) location ↔
      files.Follows room links start.dropLast rest location := by
  constructor
  · intro h
    cases h with
    | here hhere => exact absurd (hhere.symm.trans hup) (by decide)
    | up _ h => exact h
    | directory hname => exact absurd hup hname.ne_up
    | file hname => exact absurd hup hname.ne_up
    | link hname => exact absurd hup hname.ne_up
  · exact .up hup

/-- A name leads on only if there is something under it. -/
theorem Follows.isName (h : files.Follows room links start (segment :: rest) location)
    (hhere : segment ≠ ".") (hup : segment ≠ "..") :
    IsName segment ∧ files.node? (start ++ [segment]) ≠ none := by
  cases h with
  | here h => exact absurd h hhere
  | up h => exact absurd h hup
  | directory hname hdirectory =>
      obtain ⟨readable, hnode⟩ := hdirectory
      simp [hname, hnode]
  | file hname hnode => simp [hname, hnode]
  | link hname hnode => simp [hname, hnode]

theorem follows_directory_iff (hname : IsName segment)
    (hdirectory : files.DirectoryAt (start ++ [segment])) :
    files.Follows room links start (segment :: rest) location ↔
      room (start ++ [segment]) rest ∧ files.Follows room links (start ++ [segment]) rest location := by
  constructor
  · intro h
    cases h with
    | here hhere => exact absurd hhere hname.ne_here
    | up hup => exact absurd hup hname.ne_up
    | directory _ _ hroom h => exact ⟨hroom, h⟩
    | file _ hother =>
        obtain ⟨readable, hnode⟩ := hdirectory
        cases hnode.symm.trans hother
    | link _ hother =>
        obtain ⟨readable, hnode⟩ := hdirectory
        cases hnode.symm.trans hother
  · rintro ⟨hroom, h⟩
    exact .directory hname hdirectory hroom h

theorem follows_file_iff (hname : IsName segment) {id : FileId} {content : Bytes} {executable : Bool}
    (hnode : files.node? (start ++ [segment]) = some (.file id content executable)) :
    files.Follows room links start (segment :: rest) location ↔
      room (start ++ [segment]) [] ∧ links = 0 ∧ rest = [] ∧ location = start ++ [segment] := by
  constructor
  · intro h
    cases h with
    | here hhere => exact absurd hhere hname.ne_here
    | up hup => exact absurd hup hname.ne_up
    | directory _ hother =>
        obtain ⟨readable, hother⟩ := hother
        cases hnode.symm.trans hother
    | file _ _ hroom => exact ⟨hroom, rfl, rfl, rfl⟩
    | link _ hother => cases hnode.symm.trans hother
  · rintro ⟨hroom, rfl, rfl, rfl⟩
    exact .file hname hnode hroom

theorem follows_link_iff (hname : IsName segment) {target : Path}
    (hnode : files.node? (start ++ [segment]) = some (.link target)) :
    files.Follows room links start (segment :: rest) location ↔
      room (start ++ [segment]) [] ∧ ∃ more, links = more + 1 ∧
        files.Follows room more (if target.isAbsolute then [] else start) (target.way ++ rest) location := by
  constructor
  · intro h
    cases h with
    | here hhere => exact absurd hhere hname.ne_here
    | up hup => exact absurd hup hname.ne_up
    | directory _ hother =>
        obtain ⟨readable, hother⟩ := hother
        cases hnode.symm.trans hother
    | file _ hother => cases hnode.symm.trans hother
    | link _ hother hroom h =>
        cases hnode.symm.trans hother
        exact ⟨hroom, _, rfl, h⟩
  · rintro ⟨hroom, more, rfl, h⟩
    exact .link hname hnode hroom h

end Name

/-! ### A whole way -/

section Way

variable {links : Nat} {start middle location : Location} {first rest : List RawText}

theorem Follows.mono {wider : Location → List RawText → Prop} (hwider : ∀ place rest, room place rest → wider place rest)
    (h : files.Follows room links start first location) : files.Follows wider links start first location := by
  induction h with
  | arrived location => exact .arrived location
  | here hhere _ ih => exact .here hhere ih
  | up hup _ ih => exact .up hup ih
  | directory hname hdirectory hroom _ ih => exact .directory hname hdirectory (hwider _ _ hroom) ih
  | file hname hnode hroom => exact .file hname hnode (hwider _ _ hroom)
  | link hname hnode hroom _ ih => exact .link hname hnode (hwider _ _ hroom) ih

/-- Names lead to one place, and one way. -/
theorem Follows.unique (h : files.Follows room links start first middle) {other : Nat}
    (h' : files.Follows room other start first location) : other = links ∧ location = middle := by
  induction h generalizing other with
  | arrived start => exact follows_nil_iff.mp h'
  | here hhere _ ih => exact ih ((follows_here_iff hhere).mp h')
  | up hup _ ih => exact ih ((follows_up_iff hup).mp h')
  | directory hname hdirectory _ _ ih => exact ih ((follows_directory_iff hname hdirectory).mp h').2
  | file hname hnode =>
      obtain ⟨-, hlinks, -, hlocation⟩ := (follows_file_iff hname hnode).mp h'
      exact ⟨hlinks, hlocation⟩
  | link hname hnode _ _ ih =>
      obtain ⟨-, more, rfl, hmore⟩ := (follows_link_iff hname hnode).mp h'
      obtain ⟨rfl, rfl⟩ := ih hmore
      exact ⟨rfl, rfl⟩

/-- There is something at the end, and that is not a link. -/
theorem Follows.node? (h : files.Follows room links start first location) (hstart : files.Standing start) :
    files.DirectoryAt location ∨
      ∃ id content executable, files.node? location = some (.file id content executable) := by
  induction h with
  | arrived location => exact .inl hstart.directoryAt
  | here _ _ ih => exact ih hstart
  | up _ _ ih => exact ih hstart.dropLast
  | directory _ hdirectory _ _ ih => exact ih (hstart.concat hdirectory)
  | file _ hnode => exact .inr ⟨_, _, _, hnode⟩
  | link _ _ _ _ ih =>
      apply ih
      split
      · exact standing_nil files
      · exact hstart

/-- What stands behind names that lead to a directory leads on from there. -/
theorem Follows.append_iff (h : files.Follows Anywhere links start first middle)
    (hmiddle : files.DirectoryAt middle) {total : Nat} :
    files.Follows Anywhere total start (first ++ rest) location ↔
      ∃ more, total = links + more ∧ files.Follows Anywhere more middle rest location := by
  induction h generalizing total with
  | arrived start => simp
  | here hhere _ ih => rw [List.cons_append, follows_here_iff hhere, ih hmiddle]
  | up hup _ ih => rw [List.cons_append, follows_up_iff hup, ih hmiddle]
  | directory hname hdirectory _ _ ih =>
      rw [List.cons_append, follows_directory_iff hname hdirectory, and_iff_right (anywhere _ _), ih hmiddle]
  | file hname hnode =>
      obtain ⟨readable, hmiddle⟩ := hmiddle
      cases hmiddle.symm.trans hnode
  | @link links start middle segment names target hname hnode _ _ ih =>
      rw [List.cons_append, follows_link_iff hname hnode, and_iff_right (anywhere _ _)]
      simp only [← List.append_assoc, ih hmiddle]
      constructor
      · rintro ⟨-, rfl, more, rfl, hrest⟩
        exact ⟨more, by omega, hrest⟩
      · rintro ⟨more, rfl, hrest⟩
        exact ⟨links + more, by omega, more, rfl, hrest⟩

end Way

/-! ### What a lookup follows -/

section Lookup

variable {links : Nat} {base start location : Location} {segments : List RawText} {node : Node} {path : Path}

/-- A piece of a walk comes to this node, or stops at the first of so many links on the way there. -/
def ComesTo (files : Files) (links : Nat) (location : Location) (node : Node) : Walk → Prop
  | .arrived place => links = 0 ∧ place = .occupied location node
  | .blocked _ => False
  | .redirected again names =>
    ∃ more, links = more + 1 ∧ files.Follows Anywhere more again names location ∧ files.node? location = some node

theorem comesTo_occupied_iff {found : Node} (hfound : files.node? start = some found) :
    (links = 0 ∧ location = start) ∧ files.node? location = some node ↔
      files.ComesTo links location node (.arrived (.occupied start found)) := by
  simp only [ComesTo, Place.occupied.injEq, and_assoc]
  constructor
  · rintro ⟨rfl, rfl, hlocation⟩
    exact ⟨rfl, rfl, Option.some.inj (hfound.symm.trans hlocation)⟩
  · rintro ⟨rfl, rfl, rfl⟩
    exact ⟨rfl, rfl, hfound⟩

theorem follows_iff_advance :
    files.Follows Anywhere links start segments location ∧ files.node? location = some node ↔
      files.ComesTo links location node (files.advance true start segments) := by
  induction segments generalizing start with
  | nil =>
      rw [follows_nil_iff, advance]
      cases hnode : files.node? start with
      | none =>
          simp only [ComesTo, iff_false]
          rintro ⟨⟨-, rfl⟩, hlocation⟩
          cases hnode.symm.trans hlocation
      | some found => exact comesTo_occupied_iff hnode
  | cons segment rest ih =>
      rw [advance]
      by_cases hhere : segment = "."
      · rw [if_pos hhere, follows_here_iff hhere, ih]
      by_cases hup : segment = ".."
      · rw [if_neg hhere, if_pos hup, follows_up_iff hup, ih]
      rw [if_neg hhere, if_neg hup]
      by_cases hlong : nameLimit < segment.size
      · simp only [if_pos hlong, ComesTo, iff_false]
        rintro ⟨hresolves, -⟩
        exact absurd (hresolves.isName hhere hup).1.short (Nat.not_le.mpr hlong)
      have hname : IsName segment := ⟨hhere, hup, Nat.not_lt.mp hlong⟩
      rw [if_neg hlong]
      dsimp only
      rcases hnode : files.node? (start ++ [segment]) with _ | readable | ⟨id, content, executable⟩ | target
      · have hnone : ¬ files.Follows Anywhere links start (segment :: rest) location := fun hresolves =>
          (hresolves.isName hhere hup).2 hnode
        rcases rest with _ | ⟨next, rest⟩ <;> simp [hnone, ComesTo]
      · rw [follows_directory_iff hname ⟨readable, hnode⟩, and_iff_right (anywhere _ _), ih]
      · rw [follows_file_iff hname hnode, and_iff_right (anywhere _ _)]
        cases rest with
        | nil =>
            rw [and_iff_right rfl, List.isEmpty_nil, if_pos rfl]
            exact comesTo_occupied_iff hnode
        | cons next rest => simp [ComesTo]
      · rw [follows_link_iff hname hnode, and_iff_right (anywhere _ _)]
        simp only [Bool.not_true, Bool.and_false, Bool.false_eq_true, if_false, ComesTo]
        constructor
        · rintro ⟨⟨more, rfl, hmore⟩, hlocation⟩
          exact ⟨more, rfl, hmore, hlocation⟩
        · rintro ⟨more, rfl, hmore, hlocation⟩
          exact ⟨⟨more, rfl, hmore⟩, hlocation⟩

theorem walk_eq_ok_iff {left : Nat} :
    files.walk true left start segments = .ok (.occupied location node) ↔
      ∃ links ≤ left, files.Follows Anywhere links start segments location ∧ files.node? location = some node := by
  simp only [follows_iff_advance]
  induction left generalizing start segments with
  | zero =>
      unfold walk
      rcases files.advance true start segments with place | fault | ⟨again, names⟩
      · simp [ComesTo]
      · simp [ComesTo]
      · simp [ComesTo]
  | succ left ih =>
      unfold walk
      rcases files.advance true start segments with place | fault | ⟨again, names⟩
      · simp [ComesTo]
      · simp [ComesTo]
      · have hredirected (links : Nat) : files.ComesTo links location node (.redirected again names) ↔
            ∃ more, links = more + 1 ∧ files.ComesTo more location node (files.advance true again names) :=
          exists_congr fun more => and_congr_right fun _ => follows_iff_advance
        simp only [ih, hredirected]
        constructor
        · rintro ⟨links, hlinks, hcomes⟩
          exact ⟨links + 1, Nat.succ_le_succ hlinks, links, rfl, hcomes⟩
        · rintro ⟨-, hlinks, links, rfl, hcomes⟩
          exact ⟨links, Nat.le_of_succ_le_succ hlinks, hcomes⟩

theorem lookup_true_eq_ok_iff :
    files.lookup base path true = .ok (.occupied location node) ↔
      path.Admissible ∧ (path.isAbsolute = false → files.DirectoryAt base) ∧
        ∃ links ≤ linkLimit, files.Follows Anywhere links (if path.isAbsolute then [] else base) path.way location ∧
          files.node? location = some node := by
  rw [lookup_eq_ok_iff, walk_eq_ok_iff]

theorem isFile_iff :
    files.isFile base path = true ↔ ∃ location id content executable,
      files.lookup base path true = .ok (.occupied location (.file id content executable)) := by
  unfold isFile find
  rcases files.lookup base path true with fault | ⟨location, _ | _ | target⟩ | location <;> simp

/-- The path leads to the directory at `location`, by way of so many links, and the names in it may be read. -/
structure OpensDirectory (files : Files) (path : Path) (links : Nat) (location : Location) : Prop where
  admissible : path.Admissible
  base : path.isAbsolute = false → files.DirectoryAt files.directory
  resolves : files.Follows Anywhere links (if path.isAbsolute then [] else files.directory) path.segments location
  within : links ≤ linkLimit
  readable : files.node? location = some .directory

theorem openDirectory_eq_ok_iff_opensDirectory :
    files.openDirectory files.directory path = .ok location ↔ ∃ links, files.OpensDirectory path links location := by
  rw [openDirectory_eq_ok_iff, lookup_eq_ok_iff, walk_way_iff, walk_eq_ok_iff]
  constructor
  · rintro ⟨hadmissible, hbase, links, hwithin, hresolves, hdirectory⟩
    exact ⟨links, hadmissible, hbase, hresolves, hwithin, hdirectory⟩
  · rintro ⟨links, hopens⟩
    exact ⟨hopens.admissible, hopens.base, links, hopens.within, hopens.resolves, hopens.readable⟩

theorem OpensDirectory.unique (h : files.OpensDirectory path links location) {links' : Nat} {location' : Location}
    (h' : files.OpensDirectory path links' location') : links' = links ∧ location' = location :=
  h.resolves.unique h'.resolves

/-- What is under a name in a directory is looked up from there, with the links that are left. -/
theorem OpensDirectory.isFile_join_iff (h : files.OpensDirectory path links location) {name : RawText}
    (hname : Path.Proper name) :
    files.isFile files.directory (path.join ⟨name⟩) = true ↔
      (path.join ⟨name⟩).Admissible ∧ ∃ more target id content executable, links + more ≤ linkLimit ∧
        files.Follows Anywhere more location [name] target ∧
        files.node? target = some (.file id content executable) := by
  have hrelative := Path.isAbsolute_of_legal hname.legal
  simp only [isFile_iff, lookup_true_eq_ok_iff, way_join hname.legal, Path.isAbsolute_join path hrelative,
    h.resolves.append_iff ⟨true, h.readable⟩]
  constructor
  · rintro ⟨target, id, content, executable, hadmissible, -, -, hwithin, ⟨more, rfl, hmore⟩, hfile⟩
    exact ⟨hadmissible, more, target, id, content, executable, hwithin, hmore, hfile⟩
  · rintro ⟨hadmissible, more, target, id, content, executable, hwithin, hmore, hfile⟩
    exact ⟨target, id, content, executable, hadmissible, h.base, links + more, hwithin, ⟨more, rfl, hmore⟩,
      hfile⟩

end Lookup

end Files

end Assay
