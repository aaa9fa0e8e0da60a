import Assay.Artifact
import Assay.Proofs.Files.Resolution
import Assay.Proofs.Files.Tree
import Mathlib.Data.Set.Card

/-!
# What is found in a directory

The artifact is the one candidate in a directory, and a candidate is a name under which there is a file, directly or
behind links. How many candidates there are settles the result, so it is the same in whatever order the directory is
listed, and whatever else it holds. Other entries can matter in one way only: a link may lead through them.
-/

namespace Assay

namespace Artifact

variable {files other : Files} {directory : Path} {suffix : String} {name : RawText} {links : Nat} {location : Location}

/-! ### Candidates -/

/-- A name in the directory at `location` that leads to a file, by way of no more than so many links. -/
structure Candidate (files : Files) (location : Location) (left : Nat) (name : RawText) : Prop where
  listed : name ∈ files.names location
  leads : ∃ links target id content executable, links ≤ left ∧
    files.Follows Files.Anywhere links location [name] target ∧ files.node? target = some (.file id content executable)

/-- The name ends in `suffix`, as it is shown. -/
def Ends (suffix : String) (name : RawText) : Prop := ∃ stem, name.lossy = stem ++ suffix

/-- The candidates in a directory, as far as they can be looked up there: not every path can, and the links on the way
to the directory count, too. -/
def found (files : Files) (directory : Path) (suffix : String) : Set RawText :=
  {name | Ends suffix name ∧ ∃ links location, files.OpensDirectory directory links location ∧
    (directory.join ⟨name⟩).Admissible ∧ Candidate files location (Files.linkLimit - links) name}

theorem hasSuffix_iff : hasSuffix suffix name = true ↔ Ends suffix name := by
  rw [hasSuffix, List.isSuffixOf_iff_suffix]
  constructor
  · rintro ⟨stem, hstem⟩
    refine ⟨String.ofList stem, String.toList_inj.mp ?_⟩
    rw [String.toList_append, String.toList_ofList, hstem]
  · rintro ⟨stem, hstem⟩
    rw [hstem, String.toList_append]
    exact List.suffix_append _ _

/-- What ends in the text of the suffix is shown to end in it. -/
theorem ends_append (stem : RawText) (suffix : String) : Ends suffix (stem ++ suffix) := by
  refine ⟨stem.lossy, ?_⟩
  rw [RawText.lossy_append (RawText.head_ofText suffix), RawText.lossy_ofText]

/-- With no U+FFFD in the suffix, it does not matter how a name is shown. -/
theorem ends_iff (h : RawText.replacement ∉ suffix.toList) :
    Ends suffix name ↔ ∃ stem : RawText, name = stem ++ suffix := by
  constructor
  · rintro ⟨stem, hstem⟩
    exact RawText.exists_append_of_lossy h hstem
  · rintro ⟨stem, rfl⟩
    exact ends_append stem suffix

/-- The names that are chosen from. -/
def choices (files : Files) (directory : Path) (location : Location) (suffix : String) : List RawText :=
  ((files.names location).filter fun name => files.isFile files.directory (directory.join ⟨name⟩)).filter
    (hasSuffix suffix)

theorem mem_choices_iff : name ∈ choices files directory location suffix ↔
    name ∈ files.names location ∧ Ends suffix name ∧
      files.isFile files.directory (directory.join ⟨name⟩) = true := by
  rw [choices, List.mem_filter, List.mem_filter, hasSuffix_iff, and_right_comm, and_assoc]

theorem mem_found_iff (htree : files.Tree) (hopens : files.OpensDirectory directory links location) :
    name ∈ found files directory suffix ↔ name ∈ choices files directory location suffix := by
  have hwithin := hopens.within
  rw [mem_choices_iff]
  constructor
  · rintro ⟨hends, links', location', hopens', hadmissible, ⟨hlisted, more, target, id, content, executable,
      hmore, hresolves, hfile⟩⟩
    obtain ⟨rfl, rfl⟩ := hopens.unique hopens'
    have hproper : Path.Proper name := htree.named.proper_of_mem_names hlisted
    refine ⟨hlisted, hends, (hopens.isFile_join_iff hproper).mpr ⟨hadmissible, more, target, id, content,
      executable, ?_, hresolves, hfile⟩⟩
    omega
  · rintro ⟨hlisted, hends, hisFile⟩
    have hproper : Path.Proper name := htree.named.proper_of_mem_names hlisted
    obtain ⟨hadmissible, more, target, id, content, executable, hmore, hresolves, hfile⟩ :=
      (hopens.isFile_join_iff hproper).mp hisFile
    refine ⟨hends, links, location, hopens, hadmissible, hlisted, more, target, id, content, executable, ?_,
      hresolves, hfile⟩
    omega

theorem nodup_choices (htree : files.Tree) (directory : Path) (location : Location) (suffix : String) :
    (choices files directory location suffix).Nodup :=
  ((htree.nodup_names location).filter _).filter _

theorem found_eq_toFinset (htree : files.Tree) (hopens : files.OpensDirectory directory links location) :
    found files directory suffix = (choices files directory location suffix).toFinset := by
  ext name
  rw [mem_found_iff htree hopens, List.coe_toFinset, Set.mem_ofPred_eq]

theorem ncard_found (htree : files.Tree) (hopens : files.OpensDirectory directory links location) :
    (found files directory suffix).ncard = (choices files directory location suffix).length := by
  rw [found_eq_toFinset htree hopens, Set.ncard_coe_finset,
    List.toFinset_card_of_nodup (nodup_choices htree directory location suffix)]

theorem choices_eq_singleton_iff (htree : files.Tree)
    (hopens : files.OpensDirectory directory links location) :
    choices files directory location suffix = [name] ↔ found files directory suffix = {name} := by
  have hnodup := nodup_choices htree directory location suffix
  rw [← List.perm_singleton, List.perm_ext_iff_of_nodup hnodup (List.nodup_singleton name), Set.ext_iff]
  simp only [mem_found_iff htree hopens, List.mem_singleton, Set.mem_singleton_iff]

theorem choices_eq_nil_iff (htree : files.Tree) (hopens : files.OpensDirectory directory links location) :
    choices files directory location suffix = [] ↔ found files directory suffix = ∅ := by
  rw [List.eq_nil_iff_forall_not_mem, Set.eq_empty_iff_forall_notMem]
  simp only [mem_found_iff htree hopens]

/-! ### The choice -/

theorem locate_of_refused {fault : Fault} (h : files.openDirectory files.directory directory = .error fault) :
    locate files directory suffix = .error (.unreadable directory fault) := by
  rw [locate, Files.listFiles, Files.list, h]
  rfl

theorem locate_of_opens (hopens : files.OpensDirectory directory links location) :
    locate files directory suffix = choose directory suffix
      ((files.names location).filter fun name => files.isFile files.directory (directory.join ⟨name⟩)) := by
  rw [locate, Files.listFiles, Files.list, Files.openDirectory_eq_ok_iff_opensDirectory.mpr ⟨links, hopens⟩]
  rfl

/-- Only how many there are to choose from matters, and which one it is if it is only one. -/
theorem choose_cases (directory : Path) (suffix : String) (names : List RawText) :
    (names.filter (hasSuffix suffix) = [] ∧ choose directory suffix names = .error (.missing directory suffix)) ∨
    (∃ name, names.filter (hasSuffix suffix) = [name] ∧
      choose directory suffix names = .ok (directory.join ⟨name⟩)) ∨
    (2 ≤ (names.filter (hasSuffix suffix)).length ∧
      choose directory suffix names =
        .error (.ambiguous directory suffix (names.filter (hasSuffix suffix)).length)) := by
  unfold choose
  rcases names.filter (hasSuffix suffix) with _ | ⟨first, _ | ⟨second, rest⟩⟩
  · exact .inl ⟨rfl, rfl⟩
  · exact .inr (.inl ⟨first, rfl, rfl⟩)
  · exact .inr (.inr ⟨by simp, rfl⟩)

/-- What can come of a directory that can be read. -/
theorem locate_cases (htree : files.Tree) (hopens : files.OpensDirectory directory links location)
    (suffix : String) :
    (found files directory suffix = ∅ ∧
      locate files directory suffix = .error (.missing directory suffix)) ∨
    (∃ name, found files directory suffix = {name} ∧
      locate files directory suffix = .ok (directory.join ⟨name⟩)) ∨
    (2 ≤ (found files directory suffix).ncard ∧ locate files directory suffix =
      .error (.ambiguous directory suffix (found files directory suffix).ncard)) := by
  rw [locate_of_opens hopens, ncard_found htree hopens, ← choices_eq_nil_iff htree hopens]
  simp only [← choices_eq_singleton_iff htree hopens]
  exact choose_cases directory suffix _

/-- Where the directory can be read in both and the same is found there, the result is the same. -/
theorem locate_eq_of_found_eq (htree : files.Tree) (htree' : other.Tree)
    (hopens : files.OpensDirectory directory links location) {links' : Nat} {location' : Location}
    (hopens' : other.OpensDirectory directory links' location')
    (hfound : found other directory suffix = found files directory suffix) :
    locate other directory suffix = locate files directory suffix := by
  have hother := locate_cases htree' hopens' suffix
  rw [hfound] at hother
  rcases locate_cases htree hopens suffix with ⟨hempty, hlocate⟩ | ⟨name, hone, hlocate⟩ | ⟨hmany, hlocate⟩
  · rcases hother with ⟨-, hlocate'⟩ | ⟨name', hone', -⟩ | ⟨hmany', -⟩
    · rw [hlocate, hlocate']
    · simp [hempty] at hone'
    · simp [hempty] at hmany'
  · rcases hother with ⟨hempty', -⟩ | ⟨name', hone', hlocate'⟩ | ⟨hmany', -⟩
    · simp [hone] at hempty'
    · obtain rfl : name = name' := Set.singleton_injective (hone.symm.trans hone')
      rw [hlocate, hlocate']
    · simp [hone] at hmany'
  · rcases hother with ⟨hempty', -⟩ | ⟨name', hone', -⟩ | ⟨-, hlocate'⟩
    · simp [hempty'] at hmany
    · simp [hone'] at hmany
    · rw [hlocate, hlocate']

/-! ### Other entries -/

/-- The files are the same, apart from entries of the directory at `location` that go by these names, with all that is
in them. -/
structure DiffersIn (files other : Files) (location : Location) (changed : Set RawText) : Prop where
  directory : other.directory = files.directory
  node? : ∀ place, (∀ name ∈ changed, ¬ location ++ [name] <+: place) → other.node? place = files.node? place

/-- Something is added to the directory, or replaced in it. -/
theorem differsIn_put (files : Files) (location : Location) (name : RawText) (node : Node) :
    DiffersIn files (files.put (location ++ [name]) node) location {name} := by
  refine ⟨rfl, fun place hplace => ?_⟩
  have hne : location ++ [name] ≠ place := fun heq => hplace name (Set.mem_singleton name) (heq ▸ List.prefix_rfl)
  rw [Files.node?_put (by simp), if_neg hne]

/-- Something is removed from the directory, with all that is in it. -/
theorem differsIn_erase (files : Files) (location : Location) (name : RawText) :
    DiffersIn files (files.erase (location ++ [name])) location {name} := by
  refine ⟨rfl, fun place hplace => ?_⟩
  have hkept : (!(location ++ [name]).isPrefixOf place) = true := by
    simpa [← List.isPrefixOf_iff_prefix] using hplace name (Set.mem_singleton name)
  have hfind := files.nodes.find?_filterKeys (fun key => !(location ++ [name]).isPrefixOf key) hkept
  rw [Files.node?, Files.node?, Files.erase, hfind]

theorem DiffersIn.trans {third : Files} {changed more : Set RawText} (h : DiffersIn files other location changed)
    (h' : DiffersIn other third location more) : DiffersIn files third location (changed ∪ more) := by
  refine ⟨h'.directory.trans h.directory, fun place hplace => ?_⟩
  rw [h'.node? place fun name hname => hplace name (.inr hname),
    h.node? place fun name hname => hplace name (.inl hname)]

/-- The way along the path does not lead through any of these entries. -/
def Bypasses (files : Files) (location : Location) (changed : Set RawText) (path : Path) : Prop :=
  ∀ place ∈ files.lookupReads files.directory path true, ∀ name ∈ changed, ¬ location ++ [name] <+: place

theorem DiffersIn.lookup_eq {changed : Set RawText} {path : Path} (h : DiffersIn files other location changed)
    (hpath : Bypasses files location changed path) :
    other.lookup other.directory path true = files.lookup files.directory path true := by
  rw [h.directory]
  exact Files.lookup_eq fun place hplace => h.node? place (hpath place hplace)

theorem DiffersIn.opens {changed : Set RawText} (h : DiffersIn files other location changed)
    (hdirectory : Bypasses files location changed directory)
    (hopens : files.OpensDirectory directory links location) :
    ∃ links, other.OpensDirectory directory links location := by
  have hlookup := h.lookup_eq hdirectory
  have hfound := Files.openDirectory_eq_ok_iff_opensDirectory.mpr ⟨links, hopens⟩
  rw [← Files.openDirectory_eq_ok_iff_opensDirectory, Files.openDirectory_eq_ok_iff, hlookup,
    ← Files.openDirectory_eq_ok_iff]
  exact hfound

theorem isFile_congr {path : Path}
    (h : other.lookup other.directory path true = files.lookup files.directory path true) :
    other.isFile other.directory path = files.isFile files.directory path := by
  unfold Files.isFile Files.find
  rw [h]

/-- What is found is the same if it is the same among the entries that are changed. -/
theorem DiffersIn.found_eq {changed : Set RawText} (h : DiffersIn files other location changed)
    (htree : files.Tree) (htree' : other.Tree)
    (hopens : files.OpensDirectory directory links location)
    (hdirectory : Bypasses files location changed directory)
    (hentries : ∀ name ∈ files.names location, name ∉ changed → Ends suffix name →
      Bypasses files location changed (directory.join ⟨name⟩))
    (hchanged : ∀ name ∈ changed, name ∈ found other directory suffix ↔ name ∈ found files directory suffix) :
    found other directory suffix = found files directory suffix := by
  obtain ⟨links', hopens'⟩ := h.opens hdirectory hopens
  ext name
  by_cases hname : name ∈ changed
  · exact hchanged name hname
  have hlisted : name ∈ other.names location ↔ name ∈ files.names location := by
    rw [Files.mem_names_iff, Files.mem_names_iff, h.node?]
    intro other hother hprefix
    have hsame := hprefix.eq_of_length (by simp)
    simp only [List.append_cancel_left_eq, List.cons.injEq, and_true] at hsame
    exact hname (hsame ▸ hother)
  rw [mem_found_iff htree' hopens', mem_found_iff htree hopens, mem_choices_iff, mem_choices_iff, hlisted]
  refine and_congr_right fun hentry => and_congr_right fun hends => ?_
  rw [isFile_congr (h.lookup_eq (hentries name hentry hname hends))]

/-- Files whose nodes are kept in another order differ in nothing. -/
theorem differsIn_of_perm (htree : files.Tree) (hdirectory : other.directory = files.directory)
    (hperm : other.nodes.entries.Perm files.nodes.entries) (location : Location) :
    DiffersIn files other location ∅ :=
  ⟨hdirectory, fun place _ => htree.node?_of_perm hperm place⟩

theorem locate_of_perm (htree : files.Tree) (hdirectory : other.directory = files.directory)
    (hperm : other.nodes.entries.Perm files.nodes.entries) :
    locate other directory suffix = locate files directory suffix := by
  have hsame := differsIn_of_perm htree hdirectory hperm
  have hbypasses (location : Location) (path : Path) : Bypasses files location ∅ path :=
    fun _ _ _ hname => absurd hname (Set.notMem_empty _)
  cases hfound : files.openDirectory files.directory directory with
  | error fault =>
      have hrefused : other.openDirectory other.directory directory = .error fault := by
        rw [← hfound]
        unfold Files.openDirectory Files.find
        rw [(hsame []).lookup_eq (hbypasses [] directory)]
      rw [locate_of_refused hrefused, locate_of_refused hfound]
  | ok location =>
      obtain ⟨links, hopens⟩ := Files.openDirectory_eq_ok_iff_opensDirectory.mp hfound
      obtain ⟨links', hopens'⟩ := (hsame location).opens (hbypasses location directory) hopens
      apply locate_eq_of_found_eq htree (htree.of_perm hperm) hopens hopens'
      exact (hsame location).found_eq htree (htree.of_perm hperm) hopens (hbypasses location directory)
        (fun name _ _ _ => hbypasses location _) fun name hname => absurd hname (Set.notMem_empty name)

/-! ### What settles the result -/

/-- The result is settled by what is found. The order of the entries does not count, and neither do entries that are not
found, as long as neither the directory nor an entry that could be found leads through them. -/
structure Settles (files : Files) (directory : Path) (suffix : String) : Prop where
  ends_iff : RawText.replacement ∉ suffix.toList →
    ∀ name, Ends suffix name ↔ ∃ stem : RawText, name = stem ++ suffix
  finite : (found files directory suffix).Finite
  unreadable_iff : (∃ fault, locate files directory suffix = .error (.unreadable directory fault)) ↔
    ¬ ∃ links location, files.OpensDirectory directory links location
  missing_iff : locate files directory suffix = .error (.missing directory suffix) ↔
    (∃ links location, files.OpensDirectory directory links location) ∧ found files directory suffix = ∅
  ok_iff : ∀ path, locate files directory suffix = .ok path ↔
    ∃ name, found files directory suffix = {name} ∧ path = directory.join ⟨name⟩
  ambiguous_iff : ∀ count, locate files directory suffix = .error (.ambiguous directory suffix count) ↔
    2 ≤ (found files directory suffix).ncard ∧ count = (found files directory suffix).ncard
  relisted : ∀ other : Files, other.directory = files.directory →
    other.nodes.entries.Perm files.nodes.entries →
      locate other directory suffix = locate files directory suffix
  unmoved : ∀ (other : Files) (links : Nat) (location : Location) (changed : Set RawText), other.Tree →
    files.OpensDirectory directory links location → DiffersIn files other location changed →
    Bypasses files location changed directory →
    (∀ name ∈ files.names location, name ∉ changed → Ends suffix name →
      Bypasses files location changed (directory.join ⟨name⟩)) →
    (∀ name ∈ changed, name ∉ found files directory suffix ∧ name ∉ found other directory suffix) →
      locate other directory suffix = locate files directory suffix

theorem settles_of_refused (htree : files.Tree) {fault : Fault}
    (hrefused : files.openDirectory files.directory directory = .error fault) (suffix : String) :
    Settles files directory suffix := by
  have hclosed : ¬ ∃ links location, files.OpensDirectory directory links location := by
    rintro ⟨links, location, hopens⟩
    rw [Files.openDirectory_eq_ok_iff_opensDirectory.mpr ⟨links, hopens⟩] at hrefused
    cases hrefused
  have hfound : found files directory suffix = ∅ :=
    Set.eq_empty_of_forall_notMem fun name ⟨_, links, location, hopens, _⟩ => hclosed ⟨links, location, hopens⟩
  have hlocate : locate files directory suffix = .error (.unreadable directory fault) :=
    locate_of_refused hrefused
  constructor
  case ends_iff => exact fun hplain name => ends_iff hplain
  case finite => simp [hfound]
  case unreadable_iff => simp [hlocate, hclosed]
  case missing_iff => simp [hlocate, hclosed]
  case ok_iff => simp [hlocate, hfound, eq_comm]
  case ambiguous_iff => simp [hlocate, hfound]
  case relisted => exact fun other hdirectory hperm => locate_of_perm htree hdirectory hperm
  case unmoved => exact fun other links location _ _ hopens => absurd ⟨links, location, hopens⟩ hclosed

theorem settles_of_opens (htree : files.Tree) (hopens : files.OpensDirectory directory links location)
    (suffix : String) : Settles files directory suffix := by
  have hreadable : ∃ links location, files.OpensDirectory directory links location := ⟨links, location, hopens⟩
  have hcases := locate_cases htree hopens suffix
  constructor
  case ends_iff => exact fun hplain name => ends_iff hplain
  case finite =>
    rw [found_eq_toFinset htree hopens]
    exact Finset.finite_toSet _
  case unreadable_iff =>
    rcases hcases with ⟨-, hlocate⟩ | ⟨name, -, hlocate⟩ | ⟨-, hlocate⟩ <;> simp [hlocate, hreadable]
  case missing_iff =>
    rcases hcases with ⟨hempty, hlocate⟩ | ⟨name, hone, hlocate⟩ | ⟨hmany, hlocate⟩
    · simp [hlocate, hempty, hreadable]
    · simp [hlocate, hone]
    · have hnonempty : found files directory suffix ≠ ∅ := by
        intro hempty
        simp [hempty] at hmany
      simp [hlocate, hnonempty]
  case ok_iff =>
    intro path
    rcases hcases with ⟨hempty, hlocate⟩ | ⟨name, hone, hlocate⟩ | ⟨hmany, hlocate⟩
    · simp [hlocate, hempty, eq_comm]
    · simp [hlocate, hone, eq_comm]
    · have hother (name : RawText) : found files directory suffix ≠ {name} := by
        intro hone
        simp [hone] at hmany
      simp [hlocate, hother]
  case ambiguous_iff =>
    intro count
    rcases hcases with ⟨hempty, hlocate⟩ | ⟨name, hone, hlocate⟩ | ⟨hmany, hlocate⟩
    · simp [hlocate, hempty]
    · simp [hlocate, hone]
    · simp [hlocate, hmany, eq_comm]
  case relisted => exact fun other hdirectory hperm => locate_of_perm htree hdirectory hperm
  case unmoved =>
    intro other links' location' changed htree' hopens hdiffers hdirectory hentries hchanged
    obtain ⟨links'', hopens''⟩ := hdiffers.opens hdirectory hopens
    apply locate_eq_of_found_eq htree htree' hopens hopens''
    exact hdiffers.found_eq htree htree' hopens hdirectory hentries fun name hname =>
      iff_of_false (hchanged name hname).2 (hchanged name hname).1

/-- Looking for the artifact of a run is strict, and the order of the entries makes no difference. -/
theorem settles (htree : files.Tree) (directory : Path) (suffix : String) :
    Settles files directory suffix := by
  cases hfound : files.openDirectory files.directory directory with
  | error fault => exact settles_of_refused htree hfound suffix
  | ok location =>
      obtain ⟨links, hopens⟩ := Files.openDirectory_eq_ok_iff_opensDirectory.mp hfound
      exact settles_of_opens htree hopens suffix

/-- A picture behind a link, a directory with the name of one, and a picture that nobody gets to see. -/
def pictureFiles : Files :=
  { Files.bare [] with
    nodes := ⟨[(["data"], .file ⟨0⟩ ByteArray.empty false), (["d"], .directory),
      (["d", "a.png"], .link ⟨"../data"⟩), (["d", "b.png"], .directory), (["locked"], .directory false),
      (["locked", "a.png"], .file ⟨1⟩ ByteArray.empty false)]⟩ }

/-- The directory with the name of a picture has gone, and there are notes. -/
def annotatedFiles : Files :=
  (pictureFiles.erase ["d", "b.png"]).put ["d", "notes"] (.file ⟨2⟩ ByteArray.empty false)

theorem tree_pictureFiles : pictureFiles.Tree := by decide

theorem tree_annotatedFiles : annotatedFiles.Tree := by decide

theorem settles_pictureFiles :
    pictureFiles.Tree ∧ annotatedFiles.Tree ∧ found pictureFiles ⟨"d"⟩ ".png" = {("a.png" : RawText)} ∧
      (∀ other : Files, other.directory = pictureFiles.directory →
        other.nodes.entries = pictureFiles.nodes.entries.reverse →
          locate other ⟨"d"⟩ ".png" = .ok ⟨"d/a.png"⟩) ∧
      (∃ fault, locate pictureFiles ⟨"locked"⟩ ".png" = .error (.unreadable ⟨"locked"⟩ fault)) ∧
      locate annotatedFiles ⟨"d"⟩ ".png" = .ok ⟨"d/a.png"⟩ := by
  have hsettles := settles tree_pictureFiles ⟨"d"⟩ ".png"
  have hlocate : locate pictureFiles ⟨"d"⟩ ".png" = .ok ⟨"d/a.png"⟩ := by decide
  have hdirectory : pictureFiles.openDirectory pictureFiles.directory ⟨"d"⟩ = .ok ["d"] := by decide
  obtain ⟨links, hopens⟩ := Files.openDirectory_eq_ok_iff_opensDirectory.mp hdirectory
  have hfound : found pictureFiles ⟨"d"⟩ ".png" = {("a.png" : RawText)} := by
    obtain ⟨name, hone, -⟩ := (hsettles.ok_iff _).mp hlocate
    have hmem : ("a.png" : RawText) ∈ found pictureFiles ⟨"d"⟩ ".png" :=
      (mem_found_iff tree_pictureFiles hopens).mpr (by decide)
    rw [hone, Set.mem_singleton_iff] at hmem
    rw [hone, hmem]
  refine ⟨tree_pictureFiles, tree_annotatedFiles, hfound, fun other hbase hentries => ?_, ?_, ?_⟩
  · rw [hsettles.relisted other hbase (hentries ▸ List.reverse_perm _), hlocate]
  · refine (settles tree_pictureFiles ⟨"locked"⟩ ".png").unreadable_iff.mpr ?_
    rintro ⟨links, location, hopens⟩
    have hfault : pictureFiles.openDirectory pictureFiles.directory ⟨"locked"⟩ = .error .permissionDenied := by
      decide
    rw [Files.openDirectory_eq_ok_iff_opensDirectory.mpr ⟨links, hopens⟩] at hfault
    cases hfault
  have hdiffers : DiffersIn pictureFiles annotatedFiles ["d"] ({("b.png" : RawText)} ∪ {("notes" : RawText)}) :=
    (differsIn_erase pictureFiles ["d"] "b.png").trans (differsIn_put _ ["d"] "notes" _)
  have hbypasses {path : Path} (hreads : ∀ place ∈ pictureFiles.lookupReads pictureFiles.directory path true,
      ¬ (["d", "b.png"] : Location) <+: place ∧ ¬ (["d", "notes"] : Location) <+: place) :
      Bypasses pictureFiles ["d"] ({("b.png" : RawText)} ∪ {("notes" : RawText)}) path := by
    rintro place hplace name (rfl | rfl)
    · exact (hreads place hplace).1
    · exact (hreads place hplace).2
  have hlisted : pictureFiles.names ["d"] = (["a.png", "b.png"] : Location) := by decide
  rw [hsettles.unmoved annotatedFiles links ["d"] _ tree_annotatedFiles hopens hdiffers
    (hbypasses (by decide)), hlocate]
  · intro name hname hkept _
    rw [hlisted, List.mem_cons, List.mem_singleton] at hname
    obtain rfl : name = "a.png" := hname.resolve_right fun heq => hkept (.inl heq)
    exact hbypasses (by decide)
  · have hgone :
        ("b.png" : RawText) ∉ found annotatedFiles ⟨"d"⟩ ".png" ∧
          ("notes" : RawText) ∉ found annotatedFiles ⟨"d"⟩ ".png" := by
      obtain ⟨links', hopens'⟩ := hdiffers.opens (hbypasses (by decide)) hopens
      rw [mem_found_iff tree_annotatedFiles hopens', mem_found_iff tree_annotatedFiles hopens']
      decide
    rw [hfound]
    rintro name (rfl | rfl)
    · exact ⟨by simp, hgone.1⟩
    · exact ⟨by simp, hgone.2⟩

/-! ### What cannot be found -/

/-- What leads to a file and ends in the text of the suffix, whether or not it can be looked up there. -/
def members (files : Files) (directory : Path) (suffix : String) : Set RawText :=
  {name | (∃ stem : RawText, name = stem ++ suffix) ∧ ∃ links location left,
    files.OpensDirectory directory links location ∧ Candidate files location left name}

/-- A picture behind a link, with nothing there yet, and a link that leads nowhere else. -/
def danglingFiles : Files :=
  { Files.bare [] with
    nodes := ⟨[(["d"], .directory), (["d", "out.png"], .link ⟨"data"⟩), (["d", "l"], .link ⟨"."⟩)]⟩ }

/-- What the link leads to is there, in the same directory. -/
def completedFiles : Files := danglingFiles.put ["d", "data"] (.file ⟨0⟩ ByteArray.empty false)

theorem tree_danglingFiles : danglingFiles.Tree := by decide

theorem tree_completedFiles : completedFiles.Tree := by decide

theorem candidate_completedFiles : Candidate completedFiles ["d"] 1 "out.png" := by
  have hlink : completedFiles.node? ((["d"] : Location) ++ (["out.png"] : Location)) = some (.link ⟨"data"⟩) := by
    decide
  have hfile : completedFiles.node? ((["d"] : Location) ++ (["data"] : Location)) =
      some (.file ⟨0⟩ ByteArray.empty false) := by
    decide
  have hresolves : completedFiles.Follows Files.Anywhere 0 ["d"] ["data"] ["d", "data"] :=
    .file ⟨by decide, by decide, by decide⟩ hfile trivial
  exact ⟨by decide, 1, ["d", "data"], ⟨0⟩, ByteArray.empty, false, Nat.le_refl 1,
    .link ⟨by decide, by decide, by decide⟩ hlink trivial hresolves, hfile⟩

/-- The path through so many links to `d` itself. -/
def windingPath (count : Nat) : Path := ⟨RawText.intercalate "/" ("d" :: List.replicate count "l")⟩

/-- The path to `d` with so many separators behind it. -/
def trailingPath (count : Nat) : Path := ⟨"d" ++ ⟨List.replicate count Path.separator⟩⟩

theorem bytes_trailingPath (count : Nat) :
    (trailingPath count).text.bytes = 0x64 :: List.replicate count Path.separator := rfl

theorem opens_trailingPath {count : Nat} (h : count + 1 < Files.pathLimit) :
    completedFiles.OpensDirectory (trailingPath count) 0 ["d"] := by
  have hseparators : ∀ byte ∈ List.replicate count Path.separator, byte = Path.separator :=
    fun _ => List.eq_of_mem_replicate
  have hsegments : (trailingPath count).segments = (["d"] : Location) := by
    have hpieces : (trailingPath count).segments = Path.pieces ([0x64] ++ List.replicate count Path.separator) :=
      rfl
    rw [hpieces, Path.pieces_append_separators _ hseparators]
    decide
  have hrelative : (trailingPath count).isAbsolute = false := rfl
  constructor
  case admissible =>
    refine ⟨?_, ?_, ?_⟩
    · rw [bytes_trailingPath]
      simp [List.mem_replicate, Path.separator]
    · intro hempty
      have hbytes := RawText.bytes_eq_nil_iff.mpr hempty
      cases hbytes
    · rwa [RawText.size, bytes_trailingPath, List.length_cons, List.length_replicate]
  case base => exact fun _ => Files.directoryAt_nil _
  case resolves =>
    rw [hrelative, hsegments]
    exact .directory ⟨by decide, by decide, by decide⟩ (by decide) trivial (.arrived _)
  case within => exact Nat.zero_le _
  case readable => decide

/-- With so many separators, no path to a picture is short enough. -/
theorem found_trailingPath {count : Nat} (hopens : count + 1 < Files.pathLimit)
    (hlong : Files.pathLimit ≤ count + 8) : found completedFiles (trailingPath count) ".png" = ∅ := by
  apply Set.eq_empty_of_forall_notMem
  rintro name ⟨hends, links, location, hopens', hadmissible, ⟨hlisted, -⟩⟩
  obtain ⟨-, rfl⟩ := (opens_trailingPath hopens).unique hopens'
  have hpictures : ∀ name ∈ completedFiles.names ["d"], hasSuffix ".png" name = true → name = "out.png" := by
    decide
  obtain rfl := hpictures name hlisted (hasSuffix_iff.mpr hends)
  have hseparator : (trailingPath count).endsInSeparator = true := by
    obtain ⟨less, rfl⟩ : ∃ less, count = less + 1 := ⟨count - 1, by simp only [Files.pathLimit] at hlong; omega⟩
    rw [Path.endsInSeparator, bytes_trailingPath, List.replicate_succ', ← List.cons_append, List.getLast?_concat]
    exact decide_eq_true rfl
  have hjoin : ((trailingPath count).join ⟨"out.png"⟩).text = (trailingPath count).text ++ "out.png" := by
    unfold Path.join
    rw [Path.isAbsolute_of_legal (by decide), hseparator, Bool.or_true]
    rfl
  have hshort := hadmissible.short
  have hsize : (trailingPath count).text.size = count + 1 := by
    rw [RawText.size, bytes_trailingPath, List.length_cons, List.length_replicate]
  have hname : (RawText.ofText "out.png").size = 7 := by decide
  rw [hjoin, RawText.size_append, hsize, hname] at hshort
  omega

/-- A picture under a name that is no text. -/
def oddFiles : Files :=
  { Files.bare [] with
    nodes := ⟨[(["d"], .directory), (["d", RawText.odd], .file ⟨0⟩ ByteArray.empty false)]⟩ }

theorem tree_oddFiles : oddFiles.Tree := by decide

/-- A candidate comes to be where nothing but what its link leads to is added. One that is there is not found behind too
many links, or where its path is too long, and one that is found need not end in the suffix. -/
theorem not_settled_by_members :
    (danglingFiles.Tree ∧ completedFiles.Tree ∧
      DiffersIn danglingFiles completedFiles ["d"] {("data" : RawText)} ∧
      ("data" : RawText) ∉ members danglingFiles ⟨"d"⟩ ".png" ∧
      ("data" : RawText) ∉ members completedFiles ⟨"d"⟩ ".png" ∧
      locate danglingFiles ⟨"d"⟩ ".png" = .error (.missing ⟨"d"⟩ ".png") ∧
      locate completedFiles ⟨"d"⟩ ".png" = .ok ⟨"d/out.png"⟩) ∧
    (("out.png" : RawText) ∈ members completedFiles (windingPath 40) ".png" ∧
      locate completedFiles (windingPath 40) ".png" = .error (.missing (windingPath 40) ".png")) ∧
    (("out.png" : RawText) ∈ members completedFiles (trailingPath 4092) ".png" ∧
      locate completedFiles (trailingPath 4092) ".png" = .error (.missing (trailingPath 4092) ".png")) ∧
    (oddFiles.Tree ∧ members oddFiles ⟨"d"⟩ "\uFFFD.png" = ∅ ∧
      locate oddFiles ⟨"d"⟩ "\uFFFD.png" = .ok ⟨"d/" ++ RawText.odd⟩) := by
  have hdata {files : Files} {directory : Path} : ("data" : RawText) ∉ members files directory ".png" := by
    rintro ⟨⟨stem, hstem⟩, -⟩
    have hends : hasSuffix ".png" "data" = true := hasSuffix_iff.mpr (hstem ▸ ends_append stem ".png")
    revert hends
    decide
  have hpicture : ∃ stem : RawText, ("out.png" : RawText) = stem ++ ".png" := ⟨"out", by decide⟩
  have hopens : ∃ links, completedFiles.OpensDirectory (windingPath 40) links ["d"] :=
    Files.openDirectory_eq_ok_iff_opensDirectory.mp (by decide)
  have htrailing : completedFiles.OpensDirectory (trailingPath 4092) 0 ["d"] := opens_trailingPath (by decide)
  refine ⟨⟨tree_danglingFiles, tree_completedFiles, differsIn_put danglingFiles ["d"] "data" _, hdata, hdata,
    by decide, by decide⟩, ⟨?_, by decide⟩, ⟨?_, ?_⟩, tree_oddFiles, ?_, by decide⟩
  · obtain ⟨links, hopens⟩ := hopens
    exact ⟨hpicture, links, ["d"], 1, hopens, candidate_completedFiles⟩
  · exact ⟨hpicture, 0, ["d"], 1, htrailing, candidate_completedFiles⟩
  · exact (settles_of_opens tree_completedFiles htrailing ".png").missing_iff.mpr
      ⟨⟨0, ["d"], htrailing⟩, found_trailingPath (by decide) (by decide)⟩
  · have hopens : ∃ links, oddFiles.OpensDirectory ⟨"d"⟩ links ["d"] :=
      Files.openDirectory_eq_ok_iff_opensDirectory.mp (by decide)
    obtain ⟨links, hopens⟩ := hopens
    apply Set.eq_empty_of_forall_notMem
    rintro name ⟨⟨stem, hstem⟩, links', location, left, hopens', hlisted, -⟩
    obtain ⟨-, rfl⟩ := hopens.unique hopens'
    have hnames : oddFiles.names ["d"] = [RawText.odd] := by decide
    rw [hnames, List.mem_singleton] at hlisted
    subst hlisted
    -- The suffix takes up more bytes than there are in the name.
    have hsize := congrArg RawText.size hstem
    rw [RawText.size_append] at hsize
    have hsuffix : (RawText.ofText "\uFFFD.png").size = 7 := by decide
    have hname : RawText.odd.size = 5 := by decide
    omega

end Artifact

end Assay
