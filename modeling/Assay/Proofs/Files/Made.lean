import Assay.Proofs.Files.Descent
import Assay.Proofs.Path.Steps

/-!
# What is there once it is made

A path that led to a free name leads to whatever is put there. For a directory this is all that is needed to
see that it can be worked in: the way to it does not depend on where relative paths start, on separators at the
end of the path, or on what is looked for behind it.
-/

namespace Assay

namespace Path

theorem dropTrailingSeparators_eq {path : Path} (h : path.endsInSeparator = false) :
    path.dropTrailingSeparators = path := by
  obtain ⟨text⟩ := path
  rw [Path.endsInSeparator, decide_eq_false_iff_not] at h
  have hkept : (text.bytes.reverse.dropWhile (· = separator)).reverse = text.bytes := by
    cases hlist : text.bytes.reverse with
    | nil => simpa using (List.reverse_eq_nil_iff.mp hlist).symm
    | cons last rest =>
        have hlast : last ≠ separator := by
          rintro rfl
          rw [List.getLast?_eq_head?_reverse, hlist] at h
          exact h rfl
        rw [List.dropWhile_cons, if_neg (by simpa using hlast), ← hlist, List.reverse_reverse]
  unfold Path.dropTrailingSeparators
  rw [hkept]
  split
  · rfl
  split
  · next hnil =>
    have hempty : text = "" := RawText.bytes_eq_nil_iff.mp hnil
    subst hempty
    rfl
  · rfl

/-- Separators at the end are nothing that a lookup could stumble over, as long as the path is not too long
with them. -/
theorem admissible_of_dropTrailingSeparators {path : Path}
    (h : path.dropTrailingSeparators.Admissible) : path.Admissible := by
  obtain ⟨dropped, hdropped, htext⟩ := exists_dropped path
  unfold dropTrailingSeparators at h
  split at h
  · exact h
  next hshort =>
  generalize (path.text.bytes.reverse.dropWhile (· = separator)).reverse = kept at htext h
  have hnul : 0 ∈ path.text.bytes → 0 ∈ kept := by
    intro hmem
    rw [htext] at hmem
    rcases List.mem_append.mp hmem with hkept | hlater
    · exact hkept
    · exact absurd (hdropped _ hlater) (by decide)
  refine ⟨?_, ?_, Nat.not_le.mp hshort⟩
  · cases kept with
    | nil => exact fun hmem => nomatch hnul hmem
    | cons first rest =>
        intro hmem
        exact h.noNul (hnul hmem)
  · intro hempty
    rw [hempty] at htext
    obtain ⟨rfl, -⟩ := List.append_eq_nil_iff.mp htext.symm
    have habsolute : path.isAbsolute = false := by simp [isAbsolute, hempty]
    simp only [habsolute] at h
    exact h.nonempty hempty

theorem endsInSeparator_join_of_legal {path : Path} {name : RawText} (h : Legal name) :
    (path.join ⟨name⟩).endsInSeparator = false := by
  obtain ⟨before, hbefore⟩ : ∃ before, (path.join ⟨name⟩).text = before ++ name := by
    unfold join
    rw [if_neg (by simp [isAbsolute_of_legal h])]
    split
    · exact ⟨path.text, rfl⟩
    · exact ⟨path.text ++ "/", rfl⟩
  have hne : name.bytes ≠ [] := fun hnil => h.1 (RawText.bytes_eq_nil_iff.mp hnil)
  apply decide_eq_false
  rw [hbefore, RawText.bytes_append, List.getLast?_append_of_ne_nil _ hne]
  intro hlast
  exact h.2 (List.mem_of_getLast? hlast)

theorem Admissible.of_join {path other : Path} (h : (path.join other).Admissible)
    (habsolute : path.isAbsolute = true) (hrelative : other.isAbsolute = false) : path.Admissible := by
  have hnonempty : path.text ≠ "" := by
    intro hempty
    simp [isAbsolute, hempty] at habsolute
  obtain ⟨rest, hrest⟩ : ∃ rest, (path.join other).text = path.text ++ rest := by
    unfold join
    rw [if_neg (by simp [hrelative])]
    split
    · exact ⟨other.text, rfl⟩
    · exact ⟨"/" ++ other.text, RawText.append_assoc ..⟩
  obtain ⟨hnul, -, hshort⟩ := h
  rw [hrest] at hnul hshort
  refine ⟨fun hmem => hnul ?_, hnonempty, ?_⟩
  · exact List.mem_append_left _ hmem
  · rw [RawText.size_append] at hshort
    omega

/-- The path is this directory or one above it. -/
def IsAbove (above directory : Path) : Prop :=
  above = directory ∨ ∃ first, first <+: directory.components ∧ above = .ofComponents first

end Path

namespace Files

variable {files : Files} {follow : Bool} {node : Node}

/-! ### Following a link at the end

It makes no difference where there is none.
-/

theorem advance_true {start : Location} {segments : List RawText} :
    (∀ place, (∀ location target, place ≠ .occupied location (.link target)) →
      files.advance follow start segments = .arrived place →
        files.advance true start segments = .arrived place) ∧
    ∀ again names, files.advance follow start segments = .redirected again names →
      files.advance true start segments = .redirected again names := by
  fun_induction advance files follow start segments with
  | case1 start node hnode => simp [advance, hnode]
  | case2 start hnode => simp
  | case3 start rest ih => simpa [advance] using ih
  | case4 start rest hhere ih => simpa [advance] using ih
  | case5 start segment rest hhere hup hlong => simp
  | case6 start segment rest hhere hup hlong next hnode hlast =>
      simp_all [advance, next]
  | case7 start segment rest hhere hup hlong next hnode hlast => simp
  | case8 start segment rest hhere hup hlong next readable hnode ih =>
      have hsame : files.node? (start ++ [segment]) = some (.directory readable) := hnode
      simpa [advance, hhere, hup, hlong, hsame] using ih
  | case9 start segment rest hhere hup hlong next id content executable hnode hlast =>
      simp_all [advance, next]
  | case10 start segment rest hhere hup hlong next id content executable hnode hlast => simp
  | case11 start segment rest hhere hup hlong next target hnode hstop =>
      refine ⟨fun place hplace harrived => ?_, by simp⟩
      cases harrived
      exact absurd rfl (hplace next target)
  | case12 start segment rest hhere hup hlong next target hnode hstop =>
      have hsame : files.node? (start ++ [segment]) = some (.link target) := hnode
      simp [advance, hhere, hup, hlong, hsame]

theorem walk_true {links : Nat} {start : Location} {segments : List RawText} {place : Place}
    (hplace : ∀ location target, place ≠ .occupied location (.link target))
    (h : files.walk follow links start segments = .ok place) :
    files.walk true links start segments = .ok place := by
  induction links generalizing start segments with
  | zero =>
      unfold walk at h ⊢
      split at h <;> cases h
      next harrived => rw [advance_true.1 place hplace harrived]
  | succ links ih =>
      unfold walk at h ⊢
      split at h
      · next harrived =>
        cases h
        rw [advance_true.1 place hplace harrived]
      · cases h
      · next again names hagain =>
        rw [advance_true.2 again names hagain]
        exact ih h

theorem lookup_true {base : Location} {path : Path} {place : Place}
    (hplace : ∀ location target, place ≠ .occupied location (.link target))
    (h : files.lookup base path follow = .ok place) : files.lookup base path true = .ok place := by
  rw [lookup_eq_ok_iff] at h ⊢
  exact ⟨h.1, h.2.1, walk_true hplace h.2.2⟩

/-! ### Something in a free place -/

theorem advance_put {start location : Location} {segments : List RawText}
    (hnode : ∀ target, node ≠ .link target)
    (h : files.advance follow start segments = .arrived (.vacant location)) :
    (files.put location node).advance follow start segments =
      .arrived (.occupied location node) := by
  obtain ⟨hne, hfree⟩ := ((reaches_of_advance files follow start segments).1 _ h).confirms
  have hput (other : Location) : (files.put location node).node? other =
      if location = other then some node else files.node? other := node?_put hne _ other
  fun_induction advance files follow start segments with
  | case3 start rest ih => simpa [advance] using ih h
  | case4 start rest hhere ih => simpa [advance] using ih h
  | case6 start segment rest hhere hup hlong next hnone hlast =>
      obtain rfl : next = location := by simpa using h
      obtain rfl : rest = [] := List.isEmpty_iff.mp hlast
      cases node with
      | link target => exact absurd rfl (hnode target)
      | _ => simp [advance, hhere, hup, hlong, hput, next]
  | case8 start segment rest hhere hup hlong next readable hdirectory ih =>
      have hother : location ≠ start ++ [segment] := by
        rintro rfl
        rw [hfree] at hdirectory
        cases hdirectory
      have hsame : files.node? (start ++ [segment]) = some (.directory readable) := hdirectory
      simpa [advance, hhere, hup, hlong, hput, hother, hsame] using ih h
  | _ => cases h

theorem walk_put {links : Nat} {start location : Location} {segments : List RawText}
    (hnode : ∀ target, node ≠ .link target)
    (h : files.walk follow links start segments = .ok (.vacant location)) :
    (files.put location node).walk follow links start segments =
      .ok (.occupied location node) := by
  obtain ⟨hne, hfree⟩ := (reaches_of_walk h).confirms
  induction links generalizing start segments with
  | zero =>
      unfold walk at h ⊢
      split at h <;> cases h
      next harrived => rw [advance_put hnode harrived]
  | succ links ih =>
      unfold walk at h ⊢
      split at h
      · next harrived =>
        cases h
        rw [advance_put hnode harrived]
      · cases h
      · next again names hagain =>
        have hreads := (reaches_of_advance files follow start segments).2 again names hagain
        have hsame : (files.put location node).advance follow start segments =
            .redirected again names := by
          rw [← hagain]
          exact advance_eq fun read hread => by
            have hother : location ≠ read := by
              rintro rfl
              exact (hreads _ hread).node?_ne_none hfree
            rw [node?_put hne, if_neg hother]
        rw [hsame]
        exact ih h

theorem lookup_put {base location : Location} {path : Path} (hnode : ∀ target, node ≠ .link target)
    (h : files.lookup base path follow = .ok (.vacant location)) :
    (files.put location node).lookup base path follow = .ok (.occupied location node) := by
  obtain ⟨hne, hfree, _⟩ := backs_of_lookup h
  rw [lookup_eq_ok_iff] at h ⊢
  refine ⟨h.1, fun hrelative => ?_, walk_put hnode h.2.2⟩
  obtain ⟨readable, hbase⟩ := h.2.1 hrelative
  have hother : location ≠ base := by
    rintro rfl
    rw [hfree] at hbase
    cases hbase
  exact ⟨readable, by rw [node?_put hne, if_neg hother, hbase]⟩

/-! ### Directories -/

variable {base location : Location} {path : Path}

theorem lookup_of_isAbsolute (habsolute : path.isAbsolute = true) (other : Location) :
    files.lookup base path follow = files.lookup other path follow := by
  unfold lookup
  rw [if_pos habsolute, if_pos habsolute]

theorem findDirectory_of_openDirectory (h : files.openDirectory base path = .ok location) :
    files.findDirectory base path = .ok location :=
  findDirectory_eq_ok_iff.mpr ⟨true, openDirectory_eq_ok_iff.mp h⟩

theorem isDirectory_of_isAbsolute (habsolute : path.isAbsolute = true) (other : Location) :
    files.isDirectory base path = files.isDirectory other path := by
  rw [isDirectory, isDirectory, find, find, lookup_of_isAbsolute habsolute other]

theorem isDirectory_of_listFiles {names : List RawText} (h : files.listFiles base path = .ok names) :
    files.isDirectory base path = true := by
  unfold listFiles list at h
  cases hfound : files.openDirectory base path with
  | error fault =>
      rw [hfound] at h
      cases h
  | ok location => exact isDirectory_iff.mpr ⟨location, true, openDirectory_eq_ok_iff.mp hfound⟩

/-- For what turns out to be a directory it makes no difference whether one was asked for. -/
theorem walk_way_iff {links : Nat} {start : Location} {readable : Bool} :
    files.walk true links start path.way = .ok (.occupied location (.directory readable)) ↔
      files.walk true links start path.segments = .ok (.occupied location (.directory readable)) := by
  unfold Path.way
  by_cases hends : path.endsInSeparator
  · rw [if_pos hends]
    exact walk_here_iff
  · rw [if_neg hends, List.append_nil]

/-- A directory is made in a free place, and is found there by its path. -/
theorem findDirectory_of_makeDirectory {made : Files} (h : files.makeDirectory base path = .ok made) :
    ∃ location, location ≠ [] ∧ files.node? location = none ∧ made = files.put location .directory ∧
      made.findDirectory base path = .ok location := by
  unfold makeDirectory at h
  split at h <;> cases h
  next location hvacant =>
  obtain ⟨hne, hfree, -⟩ := backs_of_lookup hvacant
  have hthere : (files.put location .directory).lookup base path.dropTrailingSeparators true =
      .ok (.occupied location .directory) :=
    lookup_true (by simp) (lookup_put (by simp) hvacant)
  obtain ⟨hsegments, habsolute⟩ := path.dropTrailingSeparators_spec
  rw [lookup_eq_ok_iff, habsolute, walk_way_iff, hsegments] at hthere
  obtain ⟨hadmissible, hbase, hwalk⟩ := hthere
  refine ⟨location, hne, hfree, rfl, findDirectory_eq_ok_iff.mpr ?_⟩
  refine ⟨true, lookup_eq_ok_iff.mpr ⟨?_, hbase, walk_way_iff.mpr hwalk⟩⟩
  exact Path.admissible_of_dropTrailingSeparators hadmissible

theorem isDirectory_of_makeDirectory {made : Files} (h : files.makeDirectory base path = .ok made) :
    made.isDirectory base path = true := by
  obtain ⟨location, -, -, -, hfound⟩ := findDirectory_of_makeDirectory h
  exact isDirectory_iff.mpr ⟨location, findDirectory_eq_ok_iff.mp hfound⟩

theorem isDirectory_of_makeOrKeepDirectory {made : Files}
    (h : files.makeOrKeepDirectory base path = (.ok (), made)) : made.isDirectory base path = true := by
  unfold makeOrKeepDirectory at h
  split at h
  · next hmade =>
    cases h
    exact isDirectory_of_makeDirectory hmade
  · by_cases hthere : files.isDirectory base path = true
    · rw [if_pos hthere] at h
      cases h
      exact hthere
    · rw [if_neg hthere] at h
      cases h

theorem isDirectory_of_ensureFrom {made : Files} {components : List Path.Component}
    (h : files.ensureFrom base path components = (.ok (), made)) :
    made.isDirectory base path = true := by
  rcases components with _ | ⟨last, _ | ⟨next, above⟩⟩
  · exact isDirectory_of_makeOrKeepDirectory h
  · exact isDirectory_of_makeOrKeepDirectory h
  unfold ensureFrom at h
  split at h
  · split at h
    · exact isDirectory_of_makeOrKeepDirectory h
    · cases h
  · exact isDirectory_of_makeOrKeepDirectory h

/-- A directory that was asked for and not refused is there, whether it was made or kept. -/
theorem isDirectory_of_ensureDirectory {made : Files} (hpath : path.text ≠ "")
    (h : files.ensureDirectory base path = (.ok (), made)) : made.isDirectory base path = true := by
  unfold ensureDirectory at h
  rw [if_neg fun hempty => hpath (RawText.isEmpty_iff.mp hempty)] at h
  exact isDirectory_of_ensureFrom h

theorem Grown.findDirectory {made : Files} (h : Grown files made)
    (hfound : files.findDirectory base path = .ok location) :
    made.findDirectory base path = .ok location := by
  rw [findDirectory_eq_ok_iff] at hfound ⊢
  obtain ⟨readable, hlookup⟩ := hfound
  exact ⟨readable, find_eq_ok_iff.mp (h.find_eq (find_eq_ok_iff.mpr hlookup))⟩

theorem leads_of_makeOrKeepDirectory (hfree : files.node? location = none)
    (hmade : (files.makeOrKeepDirectory base path).2.node? location ≠ none) :
    (files.makeOrKeepDirectory base path).2.findDirectory base path = .ok location := by
  unfold makeOrKeepDirectory at hmade ⊢
  cases hresult : files.makeDirectory base path with
  | error fault =>
      rw [hresult] at hmade
      exact absurd hfree hmade
  | ok made =>
      rw [hresult] at hmade
      obtain ⟨place, hne, -, rfl, hfound⟩ := findDirectory_of_makeDirectory hresult
      obtain rfl : place = location := by
        by_contra hother
        rw [node?_put hne, if_neg hother] at hmade
        exact hmade hfree
      exact hfound

/-- Whatever is new is where the path leads, or the path of something above. -/
theorem leads_of_ensureFrom {components : List Path.Component} (hfree : files.node? location = none)
    (hmade : (files.ensureFrom base path components).2.node? location ≠ none) :
    ∃ above, (above = path ∨ ∃ first, first <+: components.reverse ∧ above = .ofComponents first) ∧
      (files.ensureFrom base path components).2.findDirectory base above = .ok location := by
  induction components generalizing path with
  | nil => exact ⟨path, .inl rfl, leads_of_makeOrKeepDirectory hfree hmade⟩
  | cons component rest ih =>
      rcases rest with _ | ⟨next, rest⟩
      · exact ⟨path, .inl rfl, leads_of_makeOrKeepDirectory hfree hmade⟩
      have hlonger {first : List Path.Component} (h : first <+: (next :: rest).reverse) :
          first <+: (component :: next :: rest).reverse := by
        rw [List.reverse_cons]
        exact h.trans (List.prefix_append _ _)
      unfold ensureFrom at hmade ⊢
      split at hmade
      · -- What is new was made with the parent, or it was free after that still and is the directory itself.
        have hparent := @ih (.ofComponents (next :: rest).reverse)
        rcases hresult : files.ensureFrom base (.ofComponents (next :: rest).reverse) (next :: rest) with
          ⟨fault | _, parent⟩ <;> rw [hresult] at hmade hparent
        · obtain ⟨above, hwhich, hfound⟩ := hparent hmade
          refine ⟨above, .inr ?_, hfound⟩
          rcases hwhich with rfl | ⟨first, hfirst, rfl⟩
          · exact ⟨_, hlonger List.prefix_rfl, rfl⟩
          · exact ⟨_, hlonger hfirst, rfl⟩
        · by_cases hstill : parent.node? location = none
          · exact ⟨path, .inl rfl, leads_of_makeOrKeepDirectory hstill hmade⟩
          · obtain ⟨above, hwhich, hfound⟩ := hparent hstill
            refine ⟨above, .inr ?_, (grown_makeOrKeepDirectory parent base path).findDirectory hfound⟩
            rcases hwhich with rfl | ⟨first, hfirst, rfl⟩
            · exact ⟨_, hlonger List.prefix_rfl, rfl⟩
            · exact ⟨_, hlonger hfirst, rfl⟩
      · exact ⟨path, .inl rfl, leads_of_makeOrKeepDirectory hfree hmade⟩

theorem leads_of_ensureDirectory (hfree : files.node? location = none)
    (hmade : (files.ensureDirectory base path).2.node? location ≠ none) :
    ∃ above, Path.IsAbove above path ∧
      (files.ensureDirectory base path).2.findDirectory base above = .ok location := by
  unfold ensureDirectory at hmade ⊢
  split at hmade
  · exact absurd hfree hmade
  · next hpath =>
    rw [if_neg hpath]
    obtain ⟨above, hwhich, hfound⟩ := leads_of_ensureFrom hfree hmade
    rw [List.reverse_reverse] at hwhich
    exact ⟨above, hwhich, hfound⟩

/-- Who is in a directory by a path through another one has that one, too. -/
theorem isDirectory_of_join {other : Path} (habsolute : path.isAbsolute = true)
    (hrelative : other.isAbsolute = false) (h : files.isDirectory base (path.join other) = true) :
    files.isDirectory base path = true := by
  obtain ⟨location, readable, hlookup⟩ := isDirectory_iff.mp h
  rw [lookup_eq_ok_iff, Path.isAbsolute_join path hrelative, if_pos habsolute] at hlookup
  obtain ⟨hadmissible, -, hwalk⟩ := hlookup
  rw [Path.way, Path.segments_join path hrelative, List.append_assoc] at hwalk
  obtain ⟨place, readable, hfirst⟩ : ∃ place readable, files.walk true linkLimit [] path.segments =
      .ok (.occupied place (.directory readable)) := by
    by_cases hrest : other.segments ++ (if (path.join other).endsInSeparator then [("." : RawText)] else []) = []
    · rw [hrest, List.append_nil] at hwalk
      exact ⟨location, readable, hwalk⟩
    · exact walk_of_walk_append (standing_nil files) hrest hwalk
  rw [isDirectory_iff]
  refine ⟨place, readable, lookup_eq_ok_iff.mpr ⟨?_, by simp [habsolute], ?_⟩⟩
  · exact hadmissible.of_join habsolute hrelative
  · rw [if_pos habsolute]
    exact walk_way_iff.mpr hfirst

theorem way_join {name : RawText} (h : Path.Legal name) (directory : Path) :
    (directory.join ⟨name⟩).way = directory.segments ++ [name] := by
  rw [Path.way, Path.endsInSeparator_join_of_legal h, Path.segments_join directory (Path.isAbsolute_of_legal h),
    Path.segments_of_legal h]
  simp

/-- All the names in a directory lead to places side by side. -/
theorem location_of_lookup_join (files : Files) (base : Location) (directory : Path) :
    ∃ above : Location, ∀ name place, Path.Legal name → name ≠ "." → name ≠ ".." →
      files.lookup base (directory.join ⟨name⟩) false = .ok place →
        place.location = above ++ [name] := by
  have hwalk {name : RawText} {place : Place} (hlegal : Path.Legal name)
      (h : files.lookup base (directory.join ⟨name⟩) false = .ok place) :
      files.walk false linkLimit (if directory.isAbsolute then [] else base)
        (directory.segments ++ [name]) = .ok place := by
    have hplace := (lookup_eq_ok_iff.mp h).2.2
    rwa [way_join hlegal, Path.isAbsolute_join directory (Path.isAbsolute_of_legal hlegal)] at hplace
  cases leads files linkLimit (if directory.isAbsolute then [] else base) directory.segments with
  | refused fault hrefused =>
      refine ⟨[], fun name place hlegal _ _ h => ?_⟩
      have hplace := hwalk hlegal h
      rw [hrefused false [name] (List.cons_ne_nil _ _)] at hplace
      cases hplace
  | reached left above _ hreached =>
      refine ⟨above, fun name place hlegal hhere hup h => ?_⟩
      have hplace := hwalk hlegal h
      rw [hreached false [name] (List.cons_ne_nil _ _)] at hplace
      unfold walk at hplace
      rw [advance, if_neg hhere, if_neg hup] at hplace
      by_cases hlong : nameLimit < name.size
      · rw [if_pos hlong] at hplace
        cases hplace
      rw [if_neg hlong] at hplace
      dsimp only at hplace
      rcases hnode : files.node? (above ++ [name]) with _ | _ | _ | target
      · simp only [hnode, List.isEmpty_nil, if_true] at hplace
        cases hplace
        rfl
      · simp only [hnode, advance] at hplace
        cases hplace
        rfl
      · simp only [hnode, List.isEmpty_nil, if_true] at hplace
        cases hplace
        rfl
      · simp only [hnode, List.isEmpty_nil, Bool.not_false, Bool.and_self, if_true] at hplace
        cases hplace
        rfl

/-- A name in a directory stands for what is there, and leads there unless that is a link. -/
theorem child_of_walk {left : Nat} {above : Location} {name : RawText} (hname : Path.Proper name)
    (h : files.walk true left above [name] = .ok (.occupied location node)) :
    ∃ found, files.node? (above ++ [name]) = some found ∧
      ((∀ target, found ≠ .link target) → location = above ++ [name]) := by
  unfold walk at h
  rw [advance, if_neg hname.ne_here, if_neg hname.ne_up] at h
  by_cases hlong : nameLimit < name.size
  · rw [if_pos hlong] at h
    cases h
  rw [if_neg hlong] at h
  dsimp only at h
  rcases hnode : files.node? (above ++ [name]) with _ | _ | _ | target
  · simp only [hnode, List.isEmpty_nil, if_true] at h
    cases h
  · simp only [hnode, advance] at h
    cases h
    exact ⟨_, rfl, fun _ => rfl⟩
  · simp only [hnode, List.isEmpty_nil, if_true] at h
    cases h
    exact ⟨_, rfl, fun _ => rfl⟩
  · exact ⟨_, rfl, fun hlink => absurd rfl (hlink target)⟩

/-- Where relative paths go that are put behind this one. -/
def Enters (files : Files) (directory : Path) (above : Location) : Prop :=
  if directory.text = "" then above = files.directory
  else files.findDirectory files.directory directory = .ok above

theorem child_of_find_join {directory : Path} {above : Location} {name : RawText}
    (hname : Path.Proper name) (habove : files.Enters directory above)
    (h : files.find files.directory (directory.join ⟨name⟩) = .ok (location, node)) :
    ∃ found, files.node? (above ++ [name]) = some found ∧
      ((∀ target, found ≠ .link target) → location = above ++ [name]) := by
  have hplace := (lookup_eq_ok_iff.mp (find_eq_ok_iff.mp h)).2.2
  rw [way_join hname.legal, Path.isAbsolute_join directory (Path.isAbsolute_of_legal hname.legal)] at hplace
  unfold Enters at habove
  by_cases hempty : directory.text = ""
  · rw [if_pos hempty] at habove
    have hsegments : directory.segments = [] := by
      rw [Path.segments, hempty]
      rfl
    have hrelative : directory.isAbsolute = false := by simp [Path.isAbsolute, hempty]
    rw [hsegments, hrelative, ← habove] at hplace
    exact child_of_walk hname hplace
  rw [if_neg hempty] at habove
  obtain ⟨readable, hlookup⟩ := findDirectory_eq_ok_iff.mp habove
  have hdirectory := (lookup_eq_ok_iff.mp hlookup).2.2
  rw [walk_way_iff, ← walk_here_iff] at hdirectory
  -- Both the directory and the name in it are looked up from where the names of the directory lead.
  cases leads files linkLimit (if directory.isAbsolute then [] else files.directory) directory.segments with
  | refused fault hrefused =>
      rw [hrefused true [name] (List.cons_ne_nil _ _)] at hplace
      cases hplace
  | reached left reached _ hreached =>
      rw [hreached true [name] (List.cons_ne_nil _ _)] at hplace
      rw [hreached true [("." : RawText)] (List.cons_ne_nil _ _)] at hdirectory
      have hsame : reached = above := by
        unfold walk at hdirectory
        rw [advance, if_pos rfl, advance] at hdirectory
        cases hnode : files.node? reached with
        | none => simp [hnode] at hdirectory
        | some found =>
            simp only [hnode] at hdirectory
            cases hdirectory
            rfl
      exact child_of_walk hname (hsame ▸ hplace)

end Files

end Assay
