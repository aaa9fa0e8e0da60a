import Assay.Proofs.Files.Canonical
import Assay.Proofs.Roster
import Assay.Proofs.Text.Order

/-!
# Everybody who takes part

Those who are found are exactly the directories in the directory that is named, each with a root that is spelled out
from the top, and they are in the order of their names where these are texts. It is refused to look for them only where there is no such
directory, or it may not be read.
-/

namespace Assay

namespace Roster

variable {ρ : Type} {files other : Files} {directory : Path} {location : Location} {name : RawText}

/-- What is opened is the directory that the path can be spelled out to. -/
theorem opened_eq_ok_iff_canonical (htree : files.Tree) :
    opened files directory = .ok location ↔ ∃ links, files.Canonical directory links location := by
  rw [opened_eq_ok_iff]
  constructor
  · rintro ⟨spelled, hspelled, hfound⟩
    obtain ⟨hnul, hnonempty, hbase, links, hwithin, hfollows⟩ := (Files.canonicalize_eq_ok_iff htree).mp hspelled
    have hnode := hfollows.node? (Files.standing_start htree hbase)
    obtain ⟨hadmissible, rfl, hreadable⟩ := (Files.openDirectory_path htree hnode).mp hfound
    exact ⟨links, hnul, hnonempty, hbase, hfollows, hwithin, hreadable, hadmissible⟩
  · rintro ⟨links, hcanonical⟩
    refine ⟨location, (Files.canonicalize_eq_ok_iff htree).mpr ⟨hcanonical.noNul, hcanonical.nonempty,
      hcanonical.base, links, hcanonical.within, hcanonical.follows⟩, ?_⟩
    exact (Files.openDirectory_path htree (.inl ⟨true, hcanonical.readable⟩)).mpr
      ⟨hcanonical.admissible, rfl, hcanonical.readable⟩

/-! ### The directories -/

theorem mem_directories_iff :
    name ∈ directories files location ↔ files.DirectoryAt (location ++ [name]) := by
  rw [directories, List.mem_filter, Files.mem_names_iff, decide_eq_true_iff]
  constructor
  · exact And.right
  · intro hdirectory
    exact ⟨hdirectory.node?_ne_none, hdirectory⟩

theorem nodup_directories (htree : files.Tree) (location : Location) : (directories files location).Nodup :=
  (htree.nodup_names location).filter _

/-- The directories, sorted by how their names are shown. -/
def sorted (files : Files) (location : Location) : List RawText :=
  (directories files location).mergeSort fun left right => left.lossy ≤ right.lossy

theorem mem_sorted_iff : name ∈ sorted files location ↔ files.DirectoryAt (location ++ [name]) := by
  rw [sorted, (List.mergeSort_perm _ _).mem_iff, mem_directories_iff]

theorem nodup_sorted (htree : files.Tree) (location : Location) : (sorted files location).Nodup :=
  (List.mergeSort_perm _ _).nodup_iff.mpr (nodup_directories htree location)

/-- The names of the directories at a location are texts. -/
def TextNames (files : Files) (location : Location) : Prop :=
  ∀ name, files.DirectoryAt (location ++ [name]) → name.IsText

/-- So they are wherever all names are. -/
theorem textNames_of_keys (h : ∀ key ∈ files.nodes.keys, ∀ name ∈ key, name.IsText) (location : Location) :
    TextNames files location := by
  intro name hdirectory
  have hkey := (Files.mem_keys_iff (List.concat_ne_nil name location)).mpr
    (by simpa using hdirectory.node?_ne_none)
  exact h _ hkey name (by simp)

theorem pairwise_sorted (htree : files.Tree) (htexts : TextNames files location) :
    (sorted files location).Pairwise fun left right => left.lossy < right.lossy := by
  have hnodup : ((directories files location).map RawText.lossy).Nodup := by
    refine (nodup_directories htree location).map_on fun left hleft right hright heq => ?_
    exact (htexts left (mem_directories_iff.mp hleft)).eq_of_lossy_eq (htexts right (mem_directories_iff.mp hright)) heq
  exact List.pairwise_map.mp (Text.pairwise_mergeSort RawText.lossy hnodup)

theorem ofLocation_eq : ofLocation files location =
    (sorted files location).map fun name => .ofRoot name.lossy (location.path.join ⟨name⟩) := rfl

/-- The same directories are there in one order only, if their names are texts. -/
theorem ofLocation_congr (htree : files.Tree) (htree' : other.Tree)
    (h : ∀ place, other.node? place = files.node? place) (htexts : TextNames files location) :
    ofLocation other location = ofLocation files location := by
  have hsame (name : RawText) : name ∈ sorted other location ↔ name ∈ sorted files location := by
    rw [mem_sorted_iff, mem_sorted_iff, Files.DirectoryAt, Files.DirectoryAt, h]
  have htexts' : TextNames other location := by
    intro name hdirectory
    exact htexts name (mem_sorted_iff.mp ((hsame name).mp (mem_sorted_iff.mpr hdirectory)))
  have hsorted := pairwise_sorted htree htexts
  have hsorted' := pairwise_sorted htree' htexts'
  have hperm : (sorted other location).Perm (sorted files location) :=
    (List.perm_ext_iff_of_nodup (nodup_sorted htree' location) (nodup_sorted htree location)).mpr hsame
  have heq : sorted other location = sorted files location :=
    hperm.eq_of_pairwise (fun _ _ _ _ hlt hgt => absurd hgt (lt_asymm hlt)) hsorted' hsorted
  rw [ofLocation_eq, ofLocation_eq, heq]

/-! ### Everybody, in order -/

/-- All the directories in the directory at `location` and nobody else, each one once. A label shows the name, and
where all names are texts the labels are in the order of their bytes. -/
structure Everybody (files : Files) (location : Location) (submissions : List Submission) : Prop where
  mem_iff : ∀ submission, submission ∈ submissions ↔ ∃ name,
    files.DirectoryAt (location ++ [name]) ∧ submission.label = name.lossy ∧
      submission.root = location.path.join ⟨name⟩ ∧ submission.sources = submission.root.join ⟨"src"⟩
  distinct : (submissions.map Submission.root).Nodup
  increasing : TextNames files location →
    submissions.Pairwise fun earlier later => Text.bytes earlier.label < Text.bytes later.label
  /-- Roots are spelled out from the top, and go through directories only. -/
  rooted : ∀ submission ∈ submissions, submission.root.isAbsolute = true ∧ ∃ name,
    submission.label = name.lossy ∧ submission.root = Location.path (location ++ [name]) ∧
      files.Standing (location ++ [name])

theorem mem_ofLocation_iff {submission : Submission} : submission ∈ ofLocation files location ↔ ∃ name,
    files.DirectoryAt (location ++ [name]) ∧ submission.label = name.lossy ∧
      submission.root = location.path.join ⟨name⟩ ∧ submission.sources = submission.root.join ⟨"src"⟩ := by
  rw [ofLocation_eq, List.mem_map]
  simp only [mem_sorted_iff]
  refine exists_congr fun name => and_congr_right fun _ => ?_
  constructor
  · rintro rfl
    exact ⟨rfl, rfl, rfl⟩
  · rintro ⟨hlabel, hroot, hsources⟩
    rw [Submission.ofRoot, ← hlabel, ← hroot, ← hsources]

theorem root_of_directory (htree : files.Tree) {name : RawText} (h : files.DirectoryAt (location ++ [name])) :
    location.path.join ⟨name⟩ = Location.path (location ++ [name]) := by
  have hlegal := htree.legal h.node?_ne_none
  exact (Location.path_concat (fun other hother => hlegal other (List.mem_append_left _ hother))
    (hlegal name (by simp))).symm

theorem everybody_ofLocation (htree : files.Tree) (location : Location) :
    Everybody files location (ofLocation files location) := by
  constructor
  case mem_iff => exact fun submission => mem_ofLocation_iff
  case distinct =>
    rw [ofLocation_eq, List.map_map]
    refine (nodup_sorted htree location).map_on fun left hleft right hright heq => ?_
    have hroots : Location.path (location ++ [left]) = Location.path (location ++ [right]) := by
      rw [← root_of_directory htree (mem_sorted_iff.mp hleft), ← root_of_directory htree (mem_sorted_iff.mp hright)]
      exact heq
    have hlegal (name : RawText) (hname : name ∈ sorted files location) :=
      Path.segments_path (htree.legal (mem_sorted_iff.mp hname).node?_ne_none)
    have hplaces := (hlegal left hleft).symm.trans ((congrArg Path.segments hroots).trans (hlegal right hright))
    exact List.singleton_inj.mp (List.append_cancel_left hplaces)
  case increasing =>
    intro htexts
    rw [ofLocation_eq, List.pairwise_map]
    exact (pairwise_sorted htree htexts).imp Text.bytes_lt_of_lt
  case rooted =>
    intro submission hmem
    obtain ⟨name, hdirectory, hlabel, hroot, -⟩ := mem_ofLocation_iff.mp hmem
    rw [root_of_directory htree hdirectory] at hroot
    exact ⟨by rw [hroot, Path.isAbsolute_path], name, hlabel, hroot, htree.standing hdirectory⟩

/-- What comes of looking for submissions. Canonical is a directory that may be read, under a path that leads to it by
way of at most so many links, if the places on the way and the directory itself are not too deep to be looked at by
their own paths. -/
structure Complete (directory : Path) (world : World ρ) : Prop where
  refused_iff : (∃ failure, (discover directory world).1 = .error failure) ↔
    ¬ ∃ links location, world.files.Canonical directory links location
  /-- Where no path is too long, nothing is refused that can be opened. -/
  refused_iff_unopened : world.files.Spacious → directory.Admissible →
    ((∃ failure, (discover directory world).1 = .error failure) ↔
      ∀ location, world.files.openDirectory world.files.directory directory ≠ .ok location)
  /-- A refusal names the directory as it was given. -/
  refused : ∀ failure, (discover directory world).1 = .error failure →
    ∃ fault, failure = .collection directory fault
  found : ∀ submissions, (discover directory world).1 = .ok submissions →
    ∃ links location, world.files.Canonical directory links location ∧
      Everybody world.files location submissions
  relisted : (∀ links location, world.files.Canonical directory links location → TextNames world.files location) →
    ∀ other : World ρ, other.files.directory = world.files.directory →
      other.files.nodes.entries.Perm world.files.nodes.entries →
        (discover directory other).1 = (discover directory world).1

theorem discover_of_perm {world other : World ρ} (htree : world.files.Tree)
    (htexts : ∀ links location, world.files.Canonical directory links location → TextNames world.files location)
    (hdirectory : other.files.directory = world.files.directory)
    (hperm : other.files.nodes.entries.Perm world.files.nodes.entries) :
    (discover directory other).1 = (discover directory world).1 := by
  have hnode := htree.node?_of_perm hperm
  have hopened : opened other.files directory = opened world.files directory := by
    have hfound (path : Path) : other.files.openDirectory other.files.directory path =
        world.files.openDirectory world.files.directory path := by
      unfold Files.openDirectory Files.find
      rw [hdirectory, Files.lookup_eq fun place _ => hnode place]
    unfold opened
    simp only [hfound]
    rw [hdirectory, Files.canonicalize_congr hnode]
  rw [discover_fst, discover_fst, hopened]
  rcases hlocation : opened world.files directory with fault | location
  · rfl
  · obtain ⟨links, hcanonical⟩ := (opened_eq_ok_iff_canonical htree).mp hlocation
    exact congrArg Except.ok (ofLocation_congr htree (htree.of_perm hperm) hnode (htexts links location hcanonical))

/-- Everybody is found who is there, whatever order they are listed in. -/
theorem complete {world : World ρ} (htree : world.files.Tree) (directory : Path) : Complete directory world := by
  have hopened (location : Location) : opened world.files directory = .ok location ↔
      ∃ links, world.files.Canonical directory links location := opened_eq_ok_iff_canonical htree
  have hrefused : (∃ failure, (discover directory world).1 = .error failure) ↔
      ¬ ∃ links location, world.files.Canonical directory links location := by
    rw [exists_comm]
    simp only [← hopened, discover_fst]
    rcases opened world.files directory with fault | location <;> simp
  constructor
  case refused_iff => exact hrefused
  case refused_iff_unopened =>
    intro hspacious hadmissible
    rw [hrefused, exists_comm, not_exists]
    exact forall_congr' fun location => not_congr (hspacious.canonical_iff hadmissible)
  case refused =>
    intro failure hfailure
    obtain ⟨fault, -, rfl⟩ := discover_eq_error_iff.mp hfailure
    exact ⟨fault, rfl⟩
  case found =>
    intro submissions hsubmissions
    obtain ⟨location, hlocation, rfl⟩ := discover_eq_ok_iff.mp hsubmissions
    obtain ⟨links, hcanonical⟩ := (hopened location).mp hlocation
    exact ⟨links, location, hcanonical, everybody_ofLocation htree location⟩
  case relisted => exact fun htexts other hdirectory hperm => discover_of_perm htree htexts hdirectory hperm

/-- A directory behind a link, with two submissions, a link to one of them and a file, and a directory that may not be
read. A submission that may not be read counts like any other. -/
def linkedFiles : Files :=
  { Files.bare [] with
    nodes := ⟨[(["in"], .link ⟨"subs/."⟩), (["subs"], .directory), (["subs", "b"], .directory false),
      (["subs", "a"], .directory), (["subs", "c"], .link ⟨"a"⟩), (["subs", "d"], .file ⟨0⟩ ByteArray.empty false),
      (["locked"], .directory false)]⟩ }

theorem tree_linkedFiles : linkedFiles.Tree := by decide

theorem discover_linked : (discover ⟨"in"⟩ (.start linkedFiles ())).1 = .ok pair := by
  have hopened : opened (World.start linkedFiles ()).files ⟨"in"⟩ = .ok ["subs"] := by decide
  have hnames : directories (World.start linkedFiles ()).files ["subs"] = (["b", "a"] : Location) := by
    decide
  have hsorted : (["b", "a"] : Location).mergeSort (fun left right => left.lossy ≤ right.lossy) =
      (["a", "b"] : Location) := by
    simp [List.mergeSort, List.MergeSort.Internal.splitInTwo]
  rw [discover_fst, hopened]
  simp only [ofLocation, hnames, hsorted]
  decide

theorem complete_linked : linkedFiles.Tree ∧
    (∃ links location, linkedFiles.Canonical ⟨"in"⟩ links location ∧ Everybody linkedFiles location pair) ∧
    (∀ other : World Unit, other.files.directory = [] →
      other.files.nodes.entries = linkedFiles.nodes.entries.reverse →
        (discover ⟨"in"⟩ other).1 = .ok pair) ∧
    ∀ directory ∈ [⟨"subs/d"⟩, ⟨"locked"⟩], ∃ fault,
      (discover directory (.start linkedFiles ())).1 = .error (.collection directory fault) := by
  have hcomplete (directory : Path) : Complete directory (World.start linkedFiles ()) :=
    complete tree_linkedFiles directory
  refine ⟨tree_linkedFiles, (hcomplete ⟨"in"⟩).found pair discover_linked, fun other hdirectory hentries => ?_, ?_⟩
  · have htexts : ∀ links location, linkedFiles.Canonical ⟨"in"⟩ links location → TextNames linkedFiles location :=
      fun _ location _ => textNames_of_keys (by decide) location
    rw [(hcomplete ⟨"in"⟩).relisted htexts other hdirectory (hentries ▸ List.reverse_perm _), discover_linked]
  · have hspacious : linkedFiles.Spacious := by decide
    have hfaults : ∀ directory ∈ [⟨"subs/d"⟩, ⟨"locked"⟩], directory.Admissible ∧
        (linkedFiles.openDirectory linkedFiles.directory directory).toOption = none := by
      decide
    intro directory hdirectory
    obtain ⟨hadmissible, hnone⟩ := hfaults directory hdirectory
    have hunopened (location : Location) :
        linkedFiles.openDirectory linkedFiles.directory directory ≠ .ok location := by
      intro hopened
      rw [hopened] at hnone
      cases hnone
    obtain ⟨failure, hfailure⟩ :=
      ((hcomplete directory).refused_iff_unopened hspacious hadmissible).mpr hunopened
    obtain ⟨fault, rfl⟩ := (hcomplete directory).refused failure hfailure
    exact ⟨fault, hfailure⟩

end Roster

end Assay
