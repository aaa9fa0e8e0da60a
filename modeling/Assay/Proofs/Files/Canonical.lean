import Assay.Files.Canonical
import Assay.Proofs.Files.Resolution
import Assay.Proofs.Files.Tree
import Assay.Proofs.Path.Resolution

/-!
# Where paths are spelled out to

Spelling a path out follows the same names and the same links as looking it up. What is different is that every place
on the way has to be looked at by a path of its own, and that the result goes through directories only.
-/

namespace Assay

namespace Location

/-- What is below a location has the path of that location before its name. -/
theorem path_concat {location : Location} (h : ∀ name ∈ location, Path.Legal name) {name : RawText}
    (hname : Path.Legal name) : (location ++ [name]).path = location.path.join ⟨name⟩ := by
  have hrelative := Path.isAbsolute_of_legal hname
  induction location using List.reverseRecOn generalizing name with
  | nil =>
      have hroot : (Location.path []).endsInSeparator = true := rfl
      rw [Path.join, hrelative, hroot]
      simp [path]
  | append_singleton above last ih =>
      have hlast : Path.Legal last := h last (by simp)
      have habove := ih (fun name hname => h name (List.mem_append_left _ hname)) hlast
        (Path.isAbsolute_of_legal hlast)
      have hends : (Location.path (above ++ [last])).endsInSeparator = false := by
        rw [habove]
        exact Path.endsInSeparator_join_of_legal hlast
      have hne : above ++ [last] ≠ [] := by simp
      have htext : (Location.path (above ++ [last] ++ [name])).text =
          (Location.path (above ++ [last])).text ++ "/" ++ name := by
        rw [path, path, RawText.intercalate_concat _ hne]
        simp only [RawText.append_assoc]
      have hnonempty : (Location.path (above ++ [last])).text.isEmpty = false := by simp [path]
      rw [Path.join, hrelative, hends, hnonempty]
      exact congrArg Path.mk htext

theorem way_path_concat {location : Location} (h : ∀ name ∈ location, Path.Legal name) {name : RawText}
    (hname : Path.Legal name) : (location ++ [name]).path.way = location ++ [name] := by
  rw [path_concat h hname, Files.way_join hname, Path.segments_path h]

theorem way_path_slash {location : Location} (h : ∀ name ∈ location, Path.Legal name) :
    (⟨location.path.text ++ "/"⟩ : Path).way = location ++ [("." : RawText)] := by
  have hslash : RawText.bytes "/" = [Path.separator] := rfl
  have hsegments : (⟨location.path.text ++ "/"⟩ : Path).segments = location := by
    rw [Path.segments, ← Path.pieces, RawText.bytes_append, hslash,
      Path.pieces_append_separators _ (List.forall_mem_singleton.mpr rfl), Path.pieces, ← Path.segments,
      Path.segments_path h]
  have hends : (⟨location.path.text ++ "/"⟩ : Path).endsInSeparator = true := by
    rw [Path.endsInSeparator, RawText.bytes_append, hslash, List.getLast?_concat]
    exact decide_eq_true rfl
  rw [Path.way, hsegments, hends, if_pos rfl]

theorem isAbsolute_path_slash (location : Location) :
    (⟨location.path.text ++ "/"⟩ : Path).isAbsolute = true := rfl

end Location

namespace Files

variable {files : Files} {links : Nat} {start location : Location} {segment : RawText} {rest : List RawText}

/-! ### Going through directories -/

/-- A walk through directories only goes on from where they lead. -/
theorem advance_of_standing {follow : Bool} {names : List RawText} (h : files.Standing (start ++ names))
    (hnames : ∀ name ∈ names, IsName name) :
    files.advance follow start (names ++ rest) = files.advance follow (start ++ names) rest := by
  induction names generalizing start with
  | nil => rw [List.nil_append, List.append_nil]
  | cons name names ih =>
      rw [List.append_cons] at h ⊢
      have hname := hnames name (List.mem_cons_self ..)
      obtain ⟨readable, hnode⟩ : files.DirectoryAt (start ++ [name]) := h _ (List.prefix_append _ _)
      have hlong : ¬ nameLimit < name.size := Nat.not_lt.mpr hname.short
      rw [List.cons_append, advance, if_neg hname.ne_here, if_neg hname.ne_up, if_neg hlong]
      simp only [hnode]
      exact ih h fun other hother => hnames other (List.mem_cons_of_mem _ hother)

/-- A directory can be gone through by name. -/
theorem Tree.isName (h : files.Tree) (hnode : files.node? location ≠ none) : ∀ name ∈ location, IsName name := by
  intro name hname
  have hkey := (mem_keys_iff (List.ne_nil_of_mem hname)).mpr hnode
  have hproper := h.named location hkey name hname
  exact ⟨hproper.ne_here, hproper.ne_up, h.short location hkey name hname⟩

theorem Tree.legal (h : files.Tree) (hnode : files.node? location ≠ none) :
    ∀ name ∈ location, Path.Legal name :=
  fun name hname => (h.named.proper hnode name hname).legal

/-- Looking at a place by its path is one step from the directory above it. -/
theorem lookup_path_concat (htree : files.Tree) (hstanding : files.Standing start) (hlegal : Path.Legal segment)
    {base : Location} {follow : Bool} {place : Place} :
    files.lookup base (start ++ [segment]).path follow = .ok place ↔
      (start ++ [segment]).path.Admissible ∧ files.walk follow linkLimit start [segment] = .ok place := by
  have hnode := hstanding.directoryAt.node?_ne_none
  have hwalk : files.walk follow linkLimit [] (start ++ [segment]) = files.walk follow linkLimit start [segment] :=
    walk_of_advance_eq (advance_of_standing hstanding (htree.isName hnode)) _
  rw [lookup_eq_ok_iff, Path.isAbsolute_path, if_pos rfl, Location.way_path_concat (htree.legal hnode) hlegal, hwalk]
  simp

/-- With a separator behind it, the same has to be a directory. -/
theorem lookup_path_concat_slash (htree : files.Tree) (hstanding : files.Standing start)
    (hlegal : Path.Legal segment) {base : Location} {follow : Bool} {place : Place} :
    files.lookup base ⟨(start ++ [segment]).path.text ++ "/"⟩ follow = .ok place ↔
      (⟨(start ++ [segment]).path.text ++ "/"⟩ : Path).Admissible ∧
        files.walk follow linkLimit start [segment, ("." : RawText)] = .ok place := by
  have hnode := hstanding.directoryAt.node?_ne_none
  have hwalk : files.walk follow linkLimit [] (start ++ [segment, ("." : RawText)]) =
      files.walk follow linkLimit start [segment, ("." : RawText)] :=
    walk_of_advance_eq (advance_of_standing hstanding (htree.isName hnode)) _
  have hlegal' : ∀ name ∈ start ++ [segment], Path.Legal name := by
    intro name hname
    rcases List.mem_append.mp hname with hmem | hmem
    · exact htree.legal hnode name hmem
    · exact List.mem_singleton.mp hmem ▸ hlegal
  rw [lookup_eq_ok_iff, Location.isAbsolute_path_slash, if_pos rfl, Location.way_path_slash hlegal',
    List.append_assoc, List.singleton_append, hwalk]
  simp

/-! ### Looking at one place -/

theorem admissible_of_slash (h : (⟨location.path.text ++ "/"⟩ : Path).Admissible) : location.path.Admissible := by
  have hshort := h.short
  rw [RawText.size_append] at hshort
  refine ⟨fun hmem => h.noNul ?_, by simp [Location.path], by omega⟩
  exact List.mem_append_left _ hmem

theorem walk_false_singleton (hhere : segment ≠ ".") (hup : segment ≠ "..") {left : Nat} {node : Node} :
    files.walk false left start [segment] = .ok (.occupied location node) ↔
      IsName segment ∧ location = start ++ [segment] ∧ files.node? (start ++ [segment]) = some node := by
  unfold walk
  by_cases hlong : nameLimit < segment.size
  · have hname : ¬ IsName segment := fun hname => Nat.not_le.mpr hlong hname.short
    simp [advance, hhere, hup, hlong, hname]
  have hname : IsName segment := ⟨hhere, hup, Nat.not_lt.mp hlong⟩
  rcases hnode : files.node? (start ++ [segment]) with _ | _ | ⟨id, content, executable⟩ | target <;>
    simp [advance, hhere, hup, hlong, hname, hnode, eq_comm]

theorem look_eq_ok_iff_lookup {node : Node} : files.look location rest = .ok node ↔
    (∃ place target, files.lookup [] location.path false = .ok (.occupied place (.link target)) ∧
      node = .link target) ∨
    (∀ place target, files.lookup [] location.path false ≠ .ok (.occupied place (.link target))) ∧
      ∃ place, (if asksDirectory rest then files.lookup [] ⟨location.path.text ++ "/"⟩ true
        else files.lookup [] location.path false) = .ok (.occupied place node) := by
  unfold look
  generalize files.lookup [] location.path false = found
  split
  · next place target =>
    constructor
    · intro h
      cases h
      exact .inl ⟨place, target, rfl, rfl⟩
    · rintro (⟨_, _, hsame, rfl⟩ | ⟨hother, -⟩)
      · cases hsame
        rfl
      · exact absurd rfl (hother place target)
  · next hother =>
    generalize (if asksDirectory rest then files.lookup [] ⟨location.path.text ++ "/"⟩ true else found) = looked
    have hnone : ¬ ∃ place target, found = .ok (.occupied place (.link target)) ∧ node = .link target :=
      fun ⟨place, target, hfound, _⟩ => hother place target hfound
    rw [or_iff_right hnone, and_iff_right hother]
    rcases looked with fault | ⟨place, other⟩ | place <;> simp

theorem lookup_path_eq_ok_iff (htree : files.Tree) (hstanding : files.Standing start) (hlegal : Path.Legal segment)
    (hhere : segment ≠ ".") (hup : segment ≠ "..") {node : Node} :
    files.lookup [] (start ++ [segment]).path false = .ok (.occupied location node) ↔
      (start ++ [segment]).path.Admissible ∧ IsName segment ∧ location = start ++ [segment] ∧
        files.node? (start ++ [segment]) = some node := by
  rw [lookup_path_concat htree hstanding hlegal, walk_false_singleton hhere hup]

/-- With a separator behind it, the path of anything but a link leads to a directory or nowhere. -/
theorem lookup_slash_eq_ok_iff (htree : files.Tree) (hstanding : files.Standing start) (hlegal : Path.Legal segment)
    (hhere : segment ≠ ".") (hup : segment ≠ "..")
    (hlink : ∀ target, files.node? (start ++ [segment]) ≠ some (.link target)) {node : Node} :
    files.lookup [] ⟨(start ++ [segment]).path.text ++ "/"⟩ true = .ok (.occupied location node) ↔
      (⟨(start ++ [segment]).path.text ++ "/"⟩ : Path).Admissible ∧ IsName segment ∧
        location = start ++ [segment] ∧ (∃ readable, node = .directory readable) ∧
          files.node? (start ++ [segment]) = some node := by
  rw [lookup_path_concat_slash htree hstanding hlegal, walk_eq_ok_iff]
  refine and_congr_right fun _ => ?_
  constructor
  · rintro ⟨links, -, hfollows, hplace⟩
    obtain ⟨hname, hsome⟩ := hfollows.isName hhere hup
    rcases hnode : files.node? (start ++ [segment]) with _ | readable | ⟨id, content, executable⟩ | target
    · exact absurd hnode hsome
    · rw [follows_directory_iff hname ⟨readable, hnode⟩, follows_here_iff rfl, follows_nil_iff] at hfollows
      obtain ⟨-, -, rfl⟩ := hfollows
      exact ⟨hname, rfl, ⟨readable, Option.some.inj (hplace.symm.trans hnode)⟩, hnode.symm.trans hplace⟩
    · simp [follows_file_iff hname hnode] at hfollows
    · exact absurd hnode (hlink target)
  · rintro ⟨hname, rfl, ⟨readable, rfl⟩, hnode⟩
    exact ⟨0, Nat.zero_le _, .directory hname ⟨readable, hnode⟩ trivial (.here rfl (.arrived _)), hnode⟩

/-- What is found at a place by its own path is what is there, unless that is no directory and is asked to be one. -/
theorem look_eq_ok_iff (htree : files.Tree) (hstanding : files.Standing start) (hlegal : Path.Legal segment)
    (hhere : segment ≠ ".") (hup : segment ≠ "..") {node : Node} :
    files.look (start ++ [segment]) rest = .ok node ↔
      IsName segment ∧ files.node? (start ++ [segment]) = some node ∧ (start ++ [segment]).path.Admissible ∧
        (asksDirectory rest = true → (∃ target, node = .link target) ∨
          (∃ readable, node = .directory readable) ∧
            (⟨(start ++ [segment]).path.text ++ "/"⟩ : Path).Admissible) := by
  have hfound (place : Location) (node : Node) :
      files.lookup [] (start ++ [segment]).path false = .ok (.occupied place node) ↔ _ :=
    lookup_path_eq_ok_iff htree hstanding hlegal hhere hup
  rw [look_eq_ok_iff_lookup]
  constructor
  · rintro (⟨place, target, hlookup, rfl⟩ | ⟨hother, place, hlookup⟩)
    · obtain ⟨hadmissible, hname, -, hnode⟩ := (hfound _ _).mp hlookup
      exact ⟨hname, hnode, hadmissible, fun _ => .inl ⟨target, rfl⟩⟩
    by_cases hasks : asksDirectory rest = true
    · rw [if_pos hasks] at hlookup
      have hadmissible := admissible_of_slash ((lookup_path_concat_slash htree hstanding hlegal).mp hlookup).1
      have hlink (target : Path) : files.node? (start ++ [segment]) ≠ some (.link target) := by
        intro hnode
        have hsome : files.node? (start ++ [segment]) ≠ none := by simp [hnode]
        have hname : IsName segment := htree.isName hsome segment (by simp)
        exact hother _ target ((hfound _ _).mpr ⟨hadmissible, hname, rfl, hnode⟩)
      obtain ⟨hslashed, hname, -, hdirectory, hnode⟩ :=
        (lookup_slash_eq_ok_iff htree hstanding hlegal hhere hup hlink).mp hlookup
      exact ⟨hname, hnode, hadmissible, fun _ => .inr ⟨hdirectory, hslashed⟩⟩
    · rw [if_neg hasks, hfound] at hlookup
      obtain ⟨hadmissible, hname, -, hnode⟩ := hlookup
      exact ⟨hname, hnode, hadmissible, fun h => absurd h hasks⟩
  · rintro ⟨hname, hnode, hadmissible, hdirectory⟩
    by_cases hlink : ∃ target, node = .link target
    · obtain ⟨target, rfl⟩ := hlink
      exact .inl ⟨_, target, (hfound _ _).mpr ⟨hadmissible, hname, rfl, hnode⟩, rfl⟩
    have hnone (target : Path) : files.node? (start ++ [segment]) ≠ some (.link target) :=
      fun hother => hlink ⟨target, Option.some.inj (hnode.symm.trans hother)⟩
    refine .inr ⟨fun place target hlookup => hnone target ((hfound _ _).mp hlookup).2.2.2, start ++ [segment], ?_⟩
    by_cases hasks : asksDirectory rest = true
    · obtain ⟨hsort, hslashed⟩ := (hdirectory hasks).resolve_left hlink
      rw [if_pos hasks, lookup_slash_eq_ok_iff htree hstanding hlegal hhere hup hnone]
      exact ⟨hslashed, hname, rfl, hsort, hnode⟩
    · rw [if_neg hasks, hfound]
      exact ⟨hadmissible, hname, rfl, hnode⟩

/-- There is no way on from a file. -/
theorem lookup_through_file (htree : files.Tree) (hstanding : files.Standing start) (hname : IsName segment)
    {id : FileId} {content : Bytes} {executable : Bool}
    (hnode : files.node? (start ++ [segment]) = some (.file id content executable)) {path : Path} {next : RawText}
    (habsolute : path.isAbsolute = true) (hway : path.way = start ++ segment :: next :: rest) {base : Location}
    {follow : Bool} {place : Place} : files.lookup base path follow ≠ .ok place := by
  have hstart := hstanding.directoryAt.node?_ne_none
  have hadvance : files.advance follow [] (start ++ segment :: next :: rest) = .blocked .notADirectory := by
    have hlong : ¬ nameLimit < segment.size := Nat.not_lt.mpr hname.short
    rw [advance_of_standing hstanding (htree.isName hstart)]
    simp [advance, hname.ne_here, hname.ne_up, hlong, hnode]
  intro hlookup
  have hwalk := (lookup_eq_ok_iff.mp hlookup).2.2
  rw [habsolute, if_pos rfl, hway, walk, hadvance] at hwalk
  cases hwalk

/-! ### Spelling out -/

/-- The place can be looked at by its own path, with a separator behind it where that is asked for. -/
structure Room (location : Location) (rest : List RawText) : Prop where
  admissible : location.path.Admissible
  slash : asksDirectory rest = true → (⟨location.path.text ++ "/"⟩ : Path).Admissible

theorem room_nil_iff : Room location [] ↔ location.path.Admissible :=
  ⟨Room.admissible, fun h => ⟨h, fun hasks => nomatch hasks⟩⟩

theorem asksDirectory_of_here (h : asksDirectory (("." : RawText) :: rest) = false) : asksDirectory rest = false := by
  unfold asksDirectory at h ⊢
  rw [List.dropWhile_cons_of_pos (by simp)] at h
  split at h
  · cases h
  · exact h

/-- Behind a file nothing is spelled out. -/
theorem spellOut_of_file (htree : files.Tree) (hstanding : files.Standing start) (hlegal : Path.Legal segment)
    (hname : IsName segment) {id : FileId} {content : Bytes} {executable : Bool}
    (hnode : files.node? (start ++ [segment]) = some (.file id content executable))
    (hrest : ∀ name ∈ rest, Path.Legal name) (hne : rest ≠ []) (hasks : asksDirectory rest = false) :
    ∃ fault, files.spellOut (start ++ [segment]) rest = .blocked fault := by
  induction rest with
  | nil => exact absurd rfl hne
  | cons next rest ih =>
      have hlater : ∀ name ∈ rest, Path.Legal name := fun name hname => hrest name (List.mem_cons_of_mem _ hname)
      by_cases hhere : next = "."
      · subst hhere
        rw [spellOut, if_pos rfl]
        cases rest with
        | nil => cases hasks
        | cons second rest => exact ih hlater (List.cons_ne_nil _ _) (asksDirectory_of_here hasks)
      by_cases hup : next = ".."
      · subst hup
        cases hasks
      rw [spellOut, if_neg hhere, if_neg hup]
      cases hlook : files.look (start ++ [segment] ++ [next]) rest with
      | error fault => exact ⟨fault, rfl⟩
      | ok node =>
          have hstart := hstanding.directoryAt.node?_ne_none
          have hfile : ∀ name ∈ start ++ [segment], Path.Legal name :=
            List.forall_mem_append.mpr ⟨htree.legal hstart, List.forall_mem_singleton.mpr hlegal⟩
          have hnext : Path.Legal next := hrest next (List.mem_cons_self ..)
          have hway : (Location.path (start ++ [segment] ++ [next])).way = start ++ segment :: next :: [] := by
            rw [Location.way_path_concat hfile hnext, List.append_assoc]
            rfl
          have hslash : (⟨(Location.path (start ++ [segment] ++ [next])).text ++ "/"⟩ : Path).way =
              start ++ segment :: next :: [("." : RawText)] := by
            rw [Location.way_path_slash (List.forall_mem_append.mpr ⟨hfile, List.forall_mem_singleton.mpr hnext⟩),
              List.append_assoc, List.append_assoc]
            rfl
          rcases look_eq_ok_iff_lookup.mp hlook with ⟨_, _, hlookup, -⟩ | ⟨-, _, hlookup⟩
          · exact absurd hlookup (lookup_through_file htree hstanding hname hnode (Path.isAbsolute_path _) hway)
          split at hlookup
          · exact absurd hlookup
              (lookup_through_file htree hstanding hname hnode (Location.isAbsolute_path_slash _) hslash)
          · exact absurd hlookup (lookup_through_file htree hstanding hname hnode (Path.isAbsolute_path _) hway)

/-- A piece of spelling comes to this place, or stops at the first of so many links on the way there. -/
def SpellsTo (files : Files) (links : Nat) (location : Location) : Spelling → Prop
  | .done place => links = 0 ∧ location = place
  | .blocked _ => False
  | .redirected again names => ∃ more, links = more + 1 ∧ files.Follows Room more again names location

/-- A link is met below a directory. -/
theorem standing_of_spellOut (htree : files.Tree) {segments names : List RawText} {again : Location}
    (hstanding : files.Standing start) (hlegal : ∀ name ∈ segments, Path.Legal name)
    (h : files.spellOut start segments = .redirected again names) :
    files.Standing again ∧ ∀ name ∈ names, Path.Legal name := by
  induction segments generalizing start with
  | nil => cases h
  | cons segment rest ih =>
      have hsegment := hlegal segment (List.mem_cons_self ..)
      have hrest : ∀ name ∈ rest, Path.Legal name := fun name hname => hlegal name (List.mem_cons_of_mem _ hname)
      rw [spellOut] at h
      by_cases hhere : segment = "."
      · rw [if_pos hhere] at h
        exact ih hstanding hrest h
      by_cases hup : segment = ".."
      · rw [if_neg hhere, if_pos hup] at h
        exact ih hstanding.dropLast hrest h
      rw [if_neg hhere, if_neg hup] at h
      rcases hfound : files.look (start ++ [segment]) rest with fault | readable | ⟨id, content, executable⟩ | target
      · simp [hfound] at h
      · obtain ⟨-, hnode, -⟩ := (look_eq_ok_iff htree hstanding hsegment hhere hup).mp hfound
        rw [hfound] at h
        exact ih (hstanding.concat ⟨readable, hnode⟩) hrest h
      · obtain ⟨hname, hnode, -, hasks⟩ := (look_eq_ok_iff htree hstanding hsegment hhere hup).mp hfound
        rw [hfound] at h
        dsimp only at h
        rcases rest with _ | ⟨next, rest⟩
        · cases h
        obtain ⟨fault, hblocked⟩ :=
          spellOut_of_file htree hstanding hsegment hname hnode hrest (List.cons_ne_nil _ _) (by simpa using hasks)
        rw [hblocked] at h
        cases h
      · rw [hfound] at h
        cases h
        refine ⟨?_, List.forall_mem_append.mpr ⟨List.forall_mem_append.mpr ⟨?_, ?_⟩, hrest⟩⟩
        · split
          · exact standing_nil files
          · exact hstanding
        · exact fun name hname => Path.legal_of_mem_segments hname
        · split
          · decide
          · exact fun name hname => nomatch hname

theorem follows_iff_spellOut (htree : files.Tree) {segments : List RawText} (hstanding : files.Standing start)
    (hlegal : ∀ name ∈ segments, Path.Legal name) :
    files.Follows Room links start segments location ↔
      files.SpellsTo links location (files.spellOut start segments) := by
  induction segments generalizing start with
  | nil => exact follows_nil_iff
  | cons segment rest ih =>
      have hsegment := hlegal segment (List.mem_cons_self ..)
      have hrest : ∀ name ∈ rest, Path.Legal name := fun name hname => hlegal name (List.mem_cons_of_mem _ hname)
      rw [spellOut]
      by_cases hhere : segment = "."
      · rw [if_pos hhere, follows_here_iff hhere, ih hstanding hrest]
      by_cases hup : segment = ".."
      · rw [if_neg hhere, if_pos hup, follows_up_iff hup, ih hstanding.dropLast hrest]
      rw [if_neg hhere, if_neg hup]
      have hlook (node : Node) : files.look (start ++ [segment]) rest = .ok node ↔ _ :=
        look_eq_ok_iff htree hstanding hsegment hhere hup
      rcases hfound : files.look (start ++ [segment]) rest with fault | readable | ⟨id, content, executable⟩ | target
      · have hnone (node : Node) : files.look (start ++ [segment]) rest ≠ .ok node := by simp [hfound]
        refine iff_of_false (fun hfollows => ?_) not_false
        cases hfollows with
        | here h => exact hhere h
        | up h => exact hup h
        | directory hname hdirectory hroom =>
            obtain ⟨readable, hnode⟩ := hdirectory
            exact hnone _ ((hlook _).mpr
              ⟨hname, hnode, hroom.admissible, fun h => .inr ⟨⟨readable, rfl⟩, hroom.slash h⟩⟩)
        | file hname hnode hroom =>
            exact hnone _ ((hlook _).mpr ⟨hname, hnode, hroom.admissible, fun h => nomatch h⟩)
        | link hname hnode hroom =>
            exact hnone _ ((hlook _).mpr ⟨hname, hnode, hroom.admissible, fun _ => .inl ⟨_, rfl⟩⟩)
      · obtain ⟨hname, hnode, hadmissible, hasks⟩ := (hlook _).mp hfound
        have hroom : Room (start ++ [segment]) rest :=
          ⟨hadmissible, fun h => ((hasks h).resolve_left fun ⟨_, hlink⟩ => nomatch hlink).2⟩
        rw [follows_directory_iff hname ⟨readable, hnode⟩, and_iff_right hroom,
          ih (hstanding.concat ⟨readable, hnode⟩) hrest]
      · obtain ⟨hname, hnode, hadmissible, hasks⟩ := (hlook _).mp hfound
        rw [follows_file_iff hname hnode, and_iff_right (room_nil_iff.mpr hadmissible)]
        dsimp only
        cases rest with
        | nil =>
            rw [spellOut, and_iff_right rfl]
            rfl
        | cons next rest =>
            obtain ⟨fault, hblocked⟩ :=
              spellOut_of_file htree hstanding hsegment hname hnode hrest (List.cons_ne_nil _ _) (by simpa using hasks)
            simp [hblocked, SpellsTo]
      · obtain ⟨hname, hnode, hadmissible, -⟩ := (hlook _).mp hfound
        rw [follows_link_iff hname hnode, and_iff_right (room_nil_iff.mpr hadmissible)]
        rfl

theorem spell_eq_ok_iff (htree : files.Tree) {segments : List RawText} (hstanding : files.Standing start)
    (hlegal : ∀ name ∈ segments, Path.Legal name) {left : Nat} :
    files.spell left start segments = .ok location ↔
      ∃ links ≤ left, files.Follows Room links start segments location := by
  induction left generalizing start segments with
  | zero =>
      simp only [follows_iff_spellOut htree hstanding hlegal]
      unfold spell
      rcases files.spellOut start segments with place | fault | ⟨again, names⟩
      · simp [SpellsTo, eq_comm]
      · simp [SpellsTo]
      · simp [SpellsTo]
  | succ left ih =>
      simp only [follows_iff_spellOut htree hstanding hlegal]
      unfold spell
      rcases hspelled : files.spellOut start segments with place | fault | ⟨again, names⟩
      · simp [SpellsTo, eq_comm]
      · simp [SpellsTo]
      · obtain ⟨hagain, hnames⟩ := standing_of_spellOut htree hstanding hlegal hspelled
        simp only [ih hagain hnames, SpellsTo]
        constructor
        · rintro ⟨links, hlinks, hfollows⟩
          exact ⟨links + 1, Nat.succ_le_succ hlinks, links, rfl, hfollows⟩
        · rintro ⟨-, hlinks, links, rfl, hfollows⟩
          exact ⟨links, Nat.le_of_succ_le_succ hlinks, hfollows⟩

/-! ### Paths of directories -/

/-- The path leads to the directory at `location`, by way of so many links, and it can be spelled out and opened: every
place on the way can be looked at by its own path, and the names in the directory may be read. -/
structure Canonical (files : Files) (path : Path) (links : Nat) (location : Location) : Prop where
  noNul : 0 ∉ path.text.bytes
  nonempty : path.text ≠ ""
  base : path.isAbsolute = false → files.DirectoryAt files.directory
  follows : files.Follows Room links (if path.isAbsolute then [] else files.directory) path.way location
  within : links ≤ linkLimit
  readable : files.node? location = some .directory
  admissible : location.path.Admissible

theorem legal_of_mem_way {path : Path} : ∀ name ∈ path.way, Path.Legal name := by
  refine List.forall_mem_append.mpr ⟨fun name hname => Path.legal_of_mem_segments hname, ?_⟩
  split
  · decide
  · exact fun name hname => nomatch hname

theorem standing_start (htree : files.Tree) {path : Path}
    (hbase : path.isAbsolute = false → files.DirectoryAt files.directory) :
    files.Standing (if path.isAbsolute then [] else files.directory) := by
  split
  · exact standing_nil files
  · next hrelative => exact htree.standing (hbase (by simpa using hrelative))

theorem canonicalize_eq_ok_iff (htree : files.Tree) {path : Path} :
    files.canonicalize files.directory path = .ok location ↔
      0 ∉ path.text.bytes ∧ path.text ≠ "" ∧
        (path.isAbsolute = false → files.DirectoryAt files.directory) ∧
          ∃ links ≤ linkLimit, files.Follows Room links (if path.isAbsolute then [] else files.directory) path.way
            location := by
  have hspell (hbase : path.isAbsolute = false → files.DirectoryAt files.directory) :
      files.spell linkLimit (if path.isAbsolute then [] else files.directory) path.way = .ok location ↔ _ :=
    spell_eq_ok_iff htree (standing_start htree hbase) legal_of_mem_way
  unfold canonicalize
  by_cases hnul : 0 ∈ path.text.bytes
  · simp [hnul]
  by_cases hempty : path.text = ""
  · simp [hempty]
  rw [and_iff_right hnul, and_iff_right hempty, if_neg (by simpa using hnul), if_neg (by simpa using hempty)]
  by_cases habsolute : path.isAbsolute = true
  · have hall : path.isAbsolute = false → files.DirectoryAt files.directory := by simp [habsolute]
    rw [and_iff_right hall, ← hspell hall, if_pos habsolute, if_pos habsolute]
  by_cases hbase : files.DirectoryAt files.directory
  · rw [and_iff_right fun _ => hbase, ← hspell fun _ => hbase, if_neg habsolute, if_pos hbase, if_neg habsolute]
  · simp [habsolute, hbase]

/-- The path of something in the tree leads there, if it is not too long. -/
theorem openDirectory_path (htree : files.Tree) {base found : Location}
    (hnode : files.DirectoryAt location ∨
      ∃ id content executable, files.node? location = some (.file id content executable)) :
    files.openDirectory base location.path = .ok found ↔
      location.path.Admissible ∧ found = location ∧ files.node? location = some .directory := by
  rw [openDirectory_eq_ok_iff]
  rcases List.eq_nil_or_concat location with rfl | ⟨above, name, rfl⟩
  · have hway : (Location.path []).way = [("." : RawText)] := by decide
    have hroot : (Location.path []).Admissible := by decide
    have hdirectory : files.node? [] = some .directory := rfl
    rw [lookup_true_eq_ok_iff, Path.isAbsolute_path, if_pos rfl, hway]
    constructor
    · rintro ⟨-, -, links, -, hfollows, -⟩
      exact ⟨hroot, (follows_nil_iff.mp ((follows_here_iff rfl).mp hfollows)).2, hdirectory⟩
    · rintro ⟨-, rfl, -⟩
      exact ⟨hroot, nofun, 0, Nat.zero_le _, .here rfl (.arrived _), hdirectory⟩
  · rw [List.concat_eq_append] at hnode ⊢
    have hsome : files.node? (above ++ [name]) ≠ none := by
      rcases hnode with hdirectory | ⟨_, _, _, hnode⟩
      · exact hdirectory.node?_ne_none
      · simp [hnode]
    have hkey := (mem_keys_iff (by simp)).mpr hsome
    have habove := (htree.rooted _ hkey).2
    rw [List.dropLast_concat] at habove
    have hname : IsName name := htree.isName hsome name (by simp)
    rw [lookup_path_concat htree (htree.standing habove) (htree.legal hsome name (by simp)), walk_eq_ok_iff]
    refine and_congr_right fun _ => ?_
    rcases hnode with hdirectory | ⟨id, content, executable, hnode⟩
    · simp only [follows_directory_iff hname hdirectory, follows_nil_iff]
      constructor
      · rintro ⟨_, -, ⟨-, -, rfl⟩, hreadable⟩
        exact ⟨rfl, hreadable⟩
      · rintro ⟨rfl, hreadable⟩
        exact ⟨0, Nat.zero_le _, ⟨anywhere _ _, rfl, rfl⟩, hreadable⟩
    · simp only [follows_file_iff hname hnode]
      constructor
      · rintro ⟨_, -, ⟨-, -, -, rfl⟩, hdirectory⟩
        exact ⟨rfl, hdirectory⟩
      · rintro ⟨-, hdirectory⟩
        cases hnode.symm.trans hdirectory

/-- Everything in the tree can be looked at by its own path. -/
def Spacious (files : Files) : Prop :=
  ∀ key ∈ files.nodes.keys, (⟨key.path.text ++ "/"⟩ : Path).Admissible
deriving Decidable

theorem Spacious.room (h : files.Spacious) (hnode : files.node? location ≠ none) (rest : List RawText) :
    Room location rest := by
  have hslash : (⟨location.path.text ++ "/"⟩ : Path).Admissible := by
    rcases eq_or_ne location [] with rfl | hne
    · decide
    · exact h location ((mem_keys_iff hne).mpr hnode)
  exact ⟨admissible_of_slash hslash, fun _ => hslash⟩

theorem Spacious.follows_iff (h : files.Spacious) {segments : List RawText} :
    files.Follows Room links start segments location ↔ files.Follows Anywhere links start segments location := by
  refine ⟨fun hfollows => hfollows.mono fun place rest _ => anywhere place rest, fun hfollows => ?_⟩
  induction hfollows with
  | arrived location => exact .arrived location
  | here hhere _ ih => exact .here hhere ih
  | up hup _ ih => exact .up hup ih
  | directory hname hdirectory _ _ ih =>
      exact .directory hname hdirectory (h.room hdirectory.node?_ne_none _) ih
  | file hname hnode _ => exact .file hname hnode (h.room (by simp [hnode]) _)
  | link hname hnode _ _ ih => exact .link hname hnode (h.room (by simp [hnode]) _) ih

/-- If no path is too long, a directory can be spelled out and opened if it can be opened at all. -/
theorem Spacious.canonical_iff (h : files.Spacious) {path : Path} (hpath : path.Admissible) :
    (∃ links, files.Canonical path links location) ↔
      files.openDirectory files.directory path = .ok location := by
  rw [openDirectory_eq_ok_iff, lookup_true_eq_ok_iff]
  constructor
  · rintro ⟨links, hcanonical⟩
    exact ⟨hpath, hcanonical.base, links, hcanonical.within, h.follows_iff.mp hcanonical.follows,
      hcanonical.readable⟩
  · rintro ⟨-, hbase, links, hwithin, hfollows, hreadable⟩
    exact ⟨links, hpath.noNul, hpath.nonempty, hbase, h.follows_iff.mpr hfollows, hwithin, hreadable,
      (h.room (by simp [hreadable]) []).admissible⟩

/-! ### The same nodes -/

section Same

variable {other : Files} (h : ∀ place, other.node? place = files.node? place)

include h

theorem look_congr (location : Location) (rest : List RawText) :
    other.look location rest = files.look location rest := by
  have hlookup (path : Path) (follow : Bool) : other.lookup [] path follow = files.lookup [] path follow :=
    lookup_eq fun place _ => h place
  unfold look
  simp only [hlookup]

theorem spellOut_congr (start : Location) (segments : List RawText) :
    other.spellOut start segments = files.spellOut start segments := by
  induction segments generalizing start with
  | nil => rfl
  | cons segment rest ih => simp only [spellOut, look_congr h, ih]

theorem spell_congr (left : Nat) (start : Location) (segments : List RawText) :
    other.spell left start segments = files.spell left start segments := by
  induction left generalizing start segments with
  | zero =>
      unfold spell
      rw [spellOut_congr h]
  | succ left ih =>
      unfold spell
      simp only [spellOut_congr h, ih]

/-- What a path is spelled out to depends on the nodes alone. -/
theorem canonicalize_congr (base : Location) (path : Path) :
    other.canonicalize base path = files.canonicalize base path := by
  unfold canonicalize
  have hbase : other.DirectoryAt base ↔ files.DirectoryAt base :=
    exists_congr fun readable => by rw [h]
  simp only [spell_congr h, hbase]

end Same

end Files

end Assay
