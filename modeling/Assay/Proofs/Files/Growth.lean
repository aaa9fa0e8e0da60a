import Assay.Proofs.Files.Reads
import Assay.Proofs.Table
import Assay.Proofs.Text.Raw

/-!
# Directories that are made

Making a directory only ever adds directories where nothing was before. What was there stays, and so does
everything that was found by its path: a lookup that comes to something has read no free location.
-/

namespace Assay

namespace Path

/-- The text is one that can be looked up at all. -/
structure Admissible (path : Path) : Prop where
  noNul : 0 ∉ path.text.bytes
  nonempty : path.text ≠ ""
  short : path.text.size < Files.pathLimit

instance (path : Path) : Decidable path.Admissible :=
  decidable_of_iff (0 ∉ path.text.bytes ∧ path.text ≠ "" ∧ path.text.size < Files.pathLimit)
    ⟨fun h => ⟨h.1, h.2.1, h.2.2⟩, fun h => ⟨h.noNul, h.nonempty, h.short⟩⟩

end Path

def Place.location : Place → Location
  | occupied location _ | vacant location => location

namespace Files

theorem node?_put {files : Files} {location : Location} (h : location ≠ []) (node : Node)
    (other : Location) :
    (files.put location node).node? other =
      if location = other then some node else files.node? other := by
  rcases other with _ | ⟨name, other⟩
  · simp [node?, h]
  · simp [node?, put]

/-! ### What a lookup comes to -/

section Found

variable (files : Files) (follow : Bool)

/-- What a place says about the files and about the locations that led to it. -/
def Backs (reads : List Location) : Place → Prop
  | .occupied location node =>
    files.node? location = some node ∧ ∀ read ∈ reads, files.node? read ≠ none
  | .vacant location => location ≠ [] ∧ files.node? location = none ∧ location ∈ reads

theorem directoryAt_nil (files : Files) : files.DirectoryAt [] := ⟨true, rfl⟩

theorem DirectoryAt.node?_ne_none {location : Location} (h : files.DirectoryAt location) :
    files.node? location ≠ none := by
  obtain ⟨readable, hnode⟩ := h
  rw [hnode]
  exact Option.some_ne_none _

/-- A lookup can go on here. -/
def Passable (files : Files) (location : Location) : Prop :=
  files.DirectoryAt location ∨ ∃ target, files.node? location = some (.link target)

/-- The place is as the files have it. -/
def Confirms : Place → Prop
  | .occupied location node => files.node? location = some node
  | .vacant location => location ≠ [] ∧ files.node? location = none

/-- The place was read last, and from whatever was read before a lookup can go on. -/
structure Reaches (reads : List Location) (place : Place) : Prop where
  confirms : files.Confirms place
  passable : ∃ before, reads = before ++ [place.location] ∧ ∀ read ∈ before, files.Passable read

variable {files follow}

theorem Passable.node?_ne_none {location : Location} (h : files.Passable location) :
    files.node? location ≠ none := by
  rcases h with hdirectory | ⟨target, hnode⟩
  · exact hdirectory.node?_ne_none
  · rw [hnode]
    exact Option.some_ne_none _

theorem Reaches.occupied {location : Location} {node : Node} (h : files.node? location = some node) :
    files.Reaches [location] (.occupied location node) :=
  ⟨h, [], rfl, fun _ hread => nomatch hread⟩

theorem Reaches.vacant {location : Location} (hne : location ≠ []) (h : files.node? location = none) :
    files.Reaches [location] (.vacant location) :=
  ⟨⟨hne, h⟩, [], rfl, fun _ hread => nomatch hread⟩

theorem Reaches.append {first rest : List Location} {place : Place} (h : files.Reaches rest place)
    (hfirst : ∀ read ∈ first, files.Passable read) : files.Reaches (first ++ rest) place := by
  obtain ⟨hconfirms, before, rfl, hbefore⟩ := h
  refine ⟨hconfirms, first ++ before, (List.append_assoc ..).symm, fun read hread => ?_⟩
  rcases List.mem_append.mp hread with hmem | hmem
  · exact hfirst read hmem
  · exact hbefore read hmem

theorem Reaches.backs {reads : List Location} {place : Place} (h : files.Reaches reads place) :
    files.Backs reads place := by
  obtain ⟨hconfirms, before, rfl, hbefore⟩ := h
  cases place with
  | occupied location node =>
      refine ⟨hconfirms, fun read hread => ?_⟩
      rcases List.mem_append.mp hread with hmem | hlast
      · exact (hbefore read hmem).node?_ne_none
      · obtain rfl := List.mem_singleton.mp hlast
        exact fun hnone => Option.some_ne_none _ (hconfirms.symm.trans hnone)
  | vacant location =>
      exact ⟨hconfirms.1, hconfirms.2, List.mem_append_right _ (List.mem_singleton_self _)⟩

theorem reaches_of_advance (files : Files) (follow : Bool) (start : Location)
    (segments : List RawText) :
    (∀ place, files.advance follow start segments = .arrived place →
      files.Reaches (files.advanceReads start segments) place) ∧
    ∀ again names, files.advance follow start segments = .redirected again names →
      ∀ read ∈ files.advanceReads start segments, files.Passable read := by
  fun_induction advance files follow start segments with
  | case1 start node hnode =>
      refine ⟨fun place hplace => ?_, by simp⟩
      cases hplace
      exact .occupied hnode
  | case2 start hnode => simp
  | case3 start rest ih => simpa [advanceReads] using ih
  | case4 start rest hhere ih => simpa [advanceReads] using ih
  | case5 start segment rest hhere hup hlong => simp
  | case6 start segment rest hhere hup hlong next hnode hlast =>
      refine ⟨fun place hplace => ?_, by simp⟩
      cases hplace
      rw [advanceReads_of_ne_directory hhere hup hlong rest (by simp [DirectoryAt, next, hnode])]
      exact .vacant (by simp) hnode
  | case7 start segment rest hhere hup hlong next hnode hlast => simp
  | case8 start segment rest hhere hup hlong next readable hnode ih =>
      have hnext : ∀ read ∈ [next], files.Passable read := by
        intro read hread
        obtain rfl := List.mem_singleton.mp hread
        exact .inl ⟨readable, hnode⟩
      rw [advanceReads_of_directory hhere hup hlong rest ⟨readable, hnode⟩]
      refine ⟨fun place hplace => (ih.1 place hplace).append hnext, fun again names hagain => ?_⟩
      intro read hread
      rcases List.mem_append.mp hread with hmem | hmem
      · exact hnext read hmem
      · exact ih.2 again names hagain read hmem
  | case9 start segment rest hhere hup hlong next id content executable hnode hlast =>
      refine ⟨fun place hplace => ?_, by simp⟩
      cases hplace
      rw [advanceReads_of_ne_directory hhere hup hlong rest (by simp [DirectoryAt, next, hnode])]
      exact .occupied hnode
  | case10 start segment rest hhere hup hlong next id content executable hnode hlast => simp
  | case11 start segment rest hhere hup hlong next target hnode hstop =>
      refine ⟨fun place hplace => ?_, by simp⟩
      cases hplace
      rw [advanceReads_of_ne_directory hhere hup hlong rest (by simp [DirectoryAt, next, hnode])]
      exact .occupied hnode
  | case12 start segment rest hhere hup hlong next target hnode hstop =>
      refine ⟨by simp, fun again names hagain read hread => ?_⟩
      rw [advanceReads_of_ne_directory hhere hup hlong rest (by simp [DirectoryAt, next, hnode])] at hread
      obtain rfl := List.mem_singleton.mp hread
      exact .inr ⟨target, hnode⟩

theorem reaches_of_walk {links : Nat} {start : Location} {segments : List RawText} {place : Place}
    (h : files.walk follow links start segments = .ok place) :
    files.Reaches (files.walkReads follow links start segments) place := by
  induction links generalizing start segments with
  | zero =>
      have hreaches := reaches_of_advance files follow start segments
      unfold walk at h
      unfold walkReads
      rcases hwalk : files.advance follow start segments with found | fault | ⟨again, names⟩ <;>
        rw [hwalk] at h <;> cases h
      simpa using hreaches.1 place hwalk
  | succ links ih =>
      have hreaches := reaches_of_advance files follow start segments
      unfold walk at h
      unfold walkReads
      rcases hwalk : files.advance follow start segments with found | fault | ⟨again, names⟩ <;>
        rw [hwalk] at h
      · cases h
        simpa using hreaches.1 place hwalk
      · cases h
      · exact (ih h).append (hreaches.2 again names hwalk)

/-- What a lookup comes to, in one line: the text is fit to be looked up, there is somewhere to start from, and the
names lead there. -/
theorem lookup_eq_ok_iff {base : Location} {path : Path} {place : Place} :
    files.lookup base path follow = .ok place ↔
      path.Admissible ∧ (path.isAbsolute = false → files.DirectoryAt base) ∧
        files.walk follow linkLimit (if path.isAbsolute then [] else base) path.way = .ok place := by
  unfold lookup
  by_cases hnul : path.text.bytes.contains 0
  · rw [if_pos hnul]
    exact iff_of_false (by simp) fun h => h.1.noNul (List.contains_iff_mem.mp hnul)
  by_cases hempty : path.text.isEmpty
  · rw [if_neg hnul, if_pos hempty]
    exact iff_of_false (by simp) fun h => h.1.nonempty (RawText.isEmpty_iff.mp hempty)
  by_cases hlong : pathLimit ≤ path.text.size
  · rw [if_neg hnul, if_neg hempty, if_pos hlong]
    exact iff_of_false (by simp) fun h => absurd h.1.short (Nat.not_lt.mpr hlong)
  have hadmissible : path.Admissible :=
    ⟨fun hmem => hnul (List.contains_iff_mem.mpr hmem), fun htext => hempty (RawText.isEmpty_iff.mpr htext),
      Nat.not_le.mp hlong⟩
  rw [if_neg hnul, if_neg hempty, if_neg hlong]
  by_cases habsolute : path.isAbsolute
  · simp [habsolute, hadmissible, Path.way]
  rw [if_neg habsolute, if_neg habsolute]
  by_cases hbase : files.DirectoryAt base
  · simp [hbase, hadmissible, Path.way]
  · rw [if_neg hbase]
    exact iff_of_false (by simp) fun h => hbase (h.2.1 (by simpa using habsolute))

theorem walk_of_lookup {base : Location} {path : Path} {place : Place}
    (h : files.lookup base path follow = .ok place) :
    (path.isAbsolute = false → files.DirectoryAt base) ∧
      files.walk follow linkLimit (if path.isAbsolute then [] else base)
        path.way = .ok place :=
  (lookup_eq_ok_iff.mp h).2

theorem reaches_of_lookup {base : Location} {path : Path} {place : Place}
    (h : files.lookup base path follow = .ok place) :
    files.Reaches (files.lookupReads base path follow) place := by
  obtain ⟨hbase, hwalk⟩ := walk_of_lookup h
  unfold lookupReads
  by_cases habsolute : path.isAbsolute
  · rw [if_pos habsolute] at hwalk ⊢
    exact reaches_of_walk hwalk
  · rw [if_neg habsolute] at hwalk ⊢
    have hfirst : ∀ read ∈ [base], files.Passable read := by
      intro read hread
      obtain rfl := List.mem_singleton.mp hread
      exact .inl (hbase (by simpa using habsolute))
    exact Reaches.append (reaches_of_walk hwalk) hfirst

/-- A free location is read by the lookup that ends there; one that ends elsewhere has read none. -/
theorem backs_of_lookup {base : Location} {path : Path} {place : Place}
    (h : files.lookup base path follow = .ok place) :
    files.Backs (files.lookupReads base path follow) place :=
  (reaches_of_lookup h).backs

theorem find_eq_ok_iff {base location : Location} {path : Path} {node : Node} :
    files.find base path = .ok (location, node) ↔
      files.lookup base path true = .ok (.occupied location node) := by
  unfold find
  rcases files.lookup base path true with fault | found | free
  · simp
  · simp
  · simp

theorem isDirectory_iff {base : Location} {path : Path} :
    files.isDirectory base path = true ↔
      ∃ location readable,
        files.lookup base path true = .ok (.occupied location (.directory readable)) := by
  unfold isDirectory find
  rcases files.lookup base path true with fault | ⟨location, _ | _ | target⟩ | location <;> simp

theorem findDirectory_eq_ok_iff {base location : Location} {path : Path} :
    files.findDirectory base path = .ok location ↔
      ∃ readable, files.lookup base path true = .ok (.occupied location (.directory readable)) := by
  unfold findDirectory find
  rcases files.lookup base path true with fault | ⟨location, _ | _ | target⟩ | location <;> simp

theorem openDirectory_eq_ok_iff {base location : Location} {path : Path} :
    files.openDirectory base path = .ok location ↔
      files.lookup base path true = .ok (.occupied location .directory) := by
  unfold openDirectory find
  rcases files.lookup base path true with fault | ⟨location, (_ | _) | _ | target⟩ | location <;> simp

end Found

/-! ### Growing -/

/-- Directories were made where there was nothing. -/
inductive Grown (files : Files) : Files → Prop
  | same : Grown files files
  | made {other : Files} (h : Grown files other) {location : Location} (hne : location ≠ [])
      (hfree : other.node? location = none) : Grown files (other.put location .directory)

theorem Grown.trans {first second third : Files} (hfirst : Grown first second)
    (hsecond : Grown second third) : Grown first third := by
  induction hsecond with
  | same => exact hfirst
  | made _ hne hfree ih => exact .made ih hne hfree

theorem Grown.directory {files made : Files} (h : Grown files made) :
    made.directory = files.directory := by
  induction h with
  | same => rfl
  | made _ _ _ ih => exact ih

theorem Grown.node?_ne_none {files made : Files} (h : Grown files made) {location : Location}
    (hnode : files.node? location ≠ none) : made.node? location ≠ none := by
  induction h with
  | same => exact hnode
  | made _ hne _ ih =>
      rw [node?_put hne]
      split
      · simp
      · exact ih

theorem grown_of_makeDirectory {files made : Files} {base : Location} {path : Path}
    (h : files.makeDirectory base path = .ok made) : Grown files made := by
  unfold makeDirectory at h
  split at h <;> cases h
  next hvacant =>
  obtain ⟨hne, hnone, _⟩ := backs_of_lookup hvacant
  exact .made .same hne hnone

theorem grown_makeOrKeepDirectory (files : Files) (base : Location) (path : Path) :
    Grown files (files.makeOrKeepDirectory base path).2 := by
  unfold makeOrKeepDirectory
  split
  · next hmade => exact grown_of_makeDirectory hmade
  · exact .same

theorem grown_ensureFrom (files : Files) (base : Location) (path : Path)
    (components : List Path.Component) :
    Grown files (files.ensureFrom base path components).2 := by
  induction components generalizing path with
  | nil => exact grown_makeOrKeepDirectory files base path
  | cons component above ih =>
      rcases above with _ | ⟨next, above⟩
      · exact grown_makeOrKeepDirectory files base path
      unfold ensureFrom
      split
      · have hparent := ih (.ofComponents (next :: above).reverse)
        split
        · next hmade =>
          rw [hmade] at hparent
          exact hparent.trans (grown_makeOrKeepDirectory _ base path)
        · next hmade =>
          rw [hmade] at hparent
          exact hparent
      · exact grown_makeOrKeepDirectory files base path

theorem grown_ensureDirectory (files : Files) (base : Location) (path : Path) :
    Grown files (files.ensureDirectory base path).2 := by
  unfold ensureDirectory
  split
  · exact .same
  · exact grown_ensureFrom files base path _

theorem ensureDirectory_keeps {kept : Files → Prop}
    (hput : ∀ files location, kept files → kept (files.put location .directory)) {files : Files}
    (h : kept files) (base : Location) (path : Path) : kept (files.ensureDirectory base path).2 := by
  have hgrown := grown_ensureDirectory files base path
  generalize (files.ensureDirectory base path).2 = made at hgrown
  induction hgrown with
  | same => exact h
  | made _ _ _ ih => exact hput _ _ ih

/-- What is found by a path is found by it after something was made in a free place, too. -/
theorem find_put_of_free {files : Files} {base location free : Location} {path : Path} {node made : Node}
    (h : files.find base path = .ok (location, node)) (hne : free ≠ [])
    (hfree : files.node? free = none) :
    (files.put free made).find base path = .ok (location, node) := by
  rw [find_eq_ok_iff] at h ⊢
  obtain ⟨_, hreads⟩ := backs_of_lookup h
  rw [lookup_eq fun read hread => ?_, h]
  have hother : free ≠ read := by
    rintro rfl
    exact hreads _ hread hfree
  rw [node?_put hne, if_neg hother]

theorem Grown.find_eq {files made : Files} (h : Grown files made) {base location : Location} {path : Path}
    {node : Node} (hfind : files.find base path = .ok (location, node)) :
    made.find base path = .ok (location, node) := by
  induction h with
  | same => exact hfind
  | made _ hne hfree ih => exact find_put_of_free ih hne hfree

/-- What was there is there still, and what is new is a directory. -/
theorem Grown.node?_eq {files made : Files} (h : Grown files made) (location : Location) :
    made.node? location = files.node? location ∨
      files.node? location = none ∧ made.node? location = some .directory := by
  induction h with
  | same => exact .inl rfl
  | @made other _ free hne hfree ih =>
      rw [node?_put hne]
      split
      · next heq =>
        subst heq
        rw [hfree] at ih
        rcases ih with hsame | ⟨hnone, _⟩
        · exact .inr ⟨hsame.symm, rfl⟩
        · exact .inr ⟨hnone, rfl⟩
      · exact ih

end Files

end Assay
