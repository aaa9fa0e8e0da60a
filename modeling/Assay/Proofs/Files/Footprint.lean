import Assay.Proofs.Files.Region

/-!
# What an operation looks at

Making a directory may take many lookups, each in the files that the ones before it have left, and listing one
takes a lookup for every name in it. An operation that stays in a region all the while does the same in any
two file systems that are the same there.
-/

namespace Assay

namespace Files

variable {region : Region} {files other : Files} {base : Location} {path : Path}

/-! ### The locations -/

def makeDirectoryReads (files : Files) (base : Location) (path : Path) : List Location :=
  files.lookupReads base path.dropTrailingSeparators false

def makeOrKeepReads (files : Files) (base : Location) (path : Path) : List Location :=
  files.makeDirectoryReads base path ++
    match files.makeDirectory base path with
    | .ok _ => []
    | .error _ => files.lookupReads base path true

def ensureFromReads (files : Files) (base : Location) (path : Path) :
    List Path.Component → List Location
  | [] | [_] => files.makeOrKeepReads base path
  | _ :: above =>
    match files.makeDirectory base path with
    | .error .notFound =>
      files.makeDirectoryReads base path ++
        (ensureFromReads files base (.ofComponents above.reverse) above ++
          match files.ensureFrom base (.ofComponents above.reverse) above with
          | (.ok (), made) => made.makeOrKeepReads base path
          | (.error _, _) => [])
    | _ => files.makeOrKeepReads base path

def ensureDirectoryReads (files : Files) (base : Location) (path : Path) : List Location :=
  if path.text.isEmpty then [] else files.ensureFromReads base path path.components.reverse

/-- The locations that `listFiles` looks at, apart from the entries of the directory itself. -/
def listFilesReads (files : Files) (base : Location) (path : Path) : List Location :=
  files.lookupReads base path true ++
    match files.list base path with
    | .ok names => names.flatMap fun name => files.lookupReads base (path.join ⟨name⟩) true
    | .error _ => []

/-- The region holds all that is read, and all the entries of the directory that is listed. -/
structure ListsWithin (region : Region) (files : Files) (base : Location) (path : Path) : Prop where
  reads : ∀ read ∈ files.listFilesReads base path, region read = true
  entries : ∀ location, files.openDirectory base path = .ok location →
    ∀ name, region (location ++ [name]) = true

/-! ### The same on what is read -/

theorem SameOn.lookup {follow : Bool} (h : SameOn region files other)
    (hreads : ∀ read ∈ files.lookupReads base path follow, region read = true) :
    LookupsAlike Node.SameContent (files.lookup base path follow)
      (other.lookup base path follow) :=
  lookup_alike (fun _ _ => Node.SameContent.sameShape) fun read hread => h.node? (hreads read hread)

inductive FoundAlike : Except Fault (Location × Node) → Except Fault (Location × Node) → Prop
  | found (location : Location) {left right : Node} (h : left.SameContent right) :
      FoundAlike (.ok (location, left)) (.ok (location, right))
  | refused (fault : Fault) : FoundAlike (.error fault) (.error fault)

theorem SameOn.find (h : SameOn region files other)
    (hreads : ∀ read ∈ files.lookupReads base path true, region read = true) :
    FoundAlike (files.find base path) (other.find base path) := by
  have halike := h.lookup hreads
  unfold Files.find
  generalize files.lookup base path true = left, other.lookup base path true = right at halike
  cases halike with
  | refused fault => exact .refused fault
  | found hplace =>
      cases hplace with
      | vacant location => exact .refused .notFound
      | occupied location hnode => exact .found location hnode

theorem SameOn.isDirectory (h : SameOn region files other)
    (hreads : ∀ read ∈ files.lookupReads base path true, region read = true) :
    files.isDirectory base path = other.isDirectory base path := by
  have halike := h.find hreads
  unfold Files.isDirectory
  generalize files.find base path = left, other.find base path = right at halike
  cases halike with
  | refused fault => rfl
  | @found location left right hnode =>
      have hshape := Node.SameContent.sameShape hnode
      cases left <;> cases right <;> first | rfl | cases hshape

theorem SameOn.isFile (h : SameOn region files other)
    (hreads : ∀ read ∈ files.lookupReads base path true, region read = true) :
    files.isFile base path = other.isFile base path := by
  have halike := h.find hreads
  unfold Files.isFile
  generalize files.find base path = left, other.find base path = right at halike
  cases halike with
  | refused fault => rfl
  | @found location left right hnode =>
      have hshape := Node.SameContent.sameShape hnode
      cases left <;> cases right <;> first | rfl | cases hshape

theorem SameOn.openDirectory (h : SameOn region files other)
    (hreads : ∀ read ∈ files.lookupReads base path true, region read = true) :
    files.openDirectory base path = other.openDirectory base path := by
  have halike := h.find hreads
  unfold Files.openDirectory
  generalize files.find base path = left, other.find base path = right at halike
  cases halike with
  | refused fault => rfl
  | @found location left right hnode => cases left <;> cases right <;> first | rfl | cases hnode <;> rfl

/-! ### Making directories -/

def withDirectories (files : Files) (locations : List Location) : Files :=
  locations.foldl (fun files location => files.put location .directory) files

theorem withDirectories_append (files : Files) (first second : List Location) :
    files.withDirectories (first ++ second) =
      (files.withDirectories first).withDirectories second :=
  List.foldl_append

theorem SameOn.withDirectories (h : SameOn region files other) (locations : List Location) :
    SameOn region (files.withDirectories locations) (other.withDirectories locations) := by
  induction locations generalizing files other with
  | nil => exact h
  | cons location rest ih => exact ih (h.put rfl location)

theorem sameOn_withDirectories {locations : List Location}
    (hoff : ∀ location ∈ locations, region location = false) (files : Files) :
    SameOn region files (files.withDirectories locations) := by
  induction locations generalizing files with
  | nil => exact .refl region files
  | cons location rest ih =>
      have hfirst := sameOn_put_of_not_mem (hoff location (List.mem_cons_self ..)) files .directory
      exact hfirst.trans (ih (fun later hlater => hoff later (List.mem_cons_of_mem _ hlater)) _)

theorem node?_withDirectories {locations : List Location} (hne : ∀ location ∈ locations, location ≠ [])
    (files : Files) (read : Location) :
    (files.withDirectories locations).node? read =
      if read ∈ locations then some .directory else files.node? read := by
  induction locations generalizing files with
  | nil => rfl
  | cons location rest ih =>
      have hrest : (files.withDirectories (location :: rest)).node? read =
          ((files.put location .directory).withDirectories rest).node? read := rfl
      rw [hrest, ih fun later hlater => hne later (List.mem_cons_of_mem _ hlater),
        node?_put (hne location (List.mem_cons_self ..))]
      by_cases hlater : read ∈ rest
      · simp [hlater]
      · by_cases hhere : location = read
        · simp [hhere]
        · simp [hlater, hhere, Ne.symm hhere]

/-- A place in the region where something can be made. -/
structure Free (region : Region) (files : Files) (location : Location) : Prop where
  ne : location ≠ []
  none : files.node? location = none
  mem : region location = true

inductive MadeAlike (region : Region) (files other : Files) :
    Except Fault Files → Except Fault Files → Prop
  | made {location : Location} (hfree : Free region files location) :
      MadeAlike region files other (.ok (files.put location .directory))
        (.ok (other.put location .directory))
  | refused (fault : Fault) : MadeAlike region files other (.error fault) (.error fault)

/-- What cannot be made for one reason cannot be made for the same reason in the other one. -/
theorem MadeAlike.eq_error_iff {left right : Except Fault Files}
    (h : MadeAlike region files other left right) (fault : Fault) :
    left = .error fault ↔ right = .error fault := by
  cases h with
  | made hfree => exact iff_of_false (fun hmade => by cases hmade) (fun hmade => by cases hmade)
  | refused reason => rfl

/-- The same directories were made where there was nothing, with the same result. -/
structure EnsuredAlike (region : Region) (files other : Files)
    (left right : Except Fault Unit × Files) : Prop where
  result : left.1 = right.1
  made : ∃ locations, left.2 = files.withDirectories locations ∧
    right.2 = other.withDirectories locations ∧ ∀ location ∈ locations, Free region files location

theorem SameOn.makeDirectory (h : SameOn region files other)
    (hreads : ∀ read ∈ files.makeDirectoryReads base path, region read = true) :
    MadeAlike region files other (files.makeDirectory base path) (other.makeDirectory base path) := by
  have halike := h.lookup hreads
  unfold Files.makeDirectory
  rcases hplace : files.lookup base path.dropTrailingSeparators false with fault | place <;>
    rw [hplace] at halike <;>
    generalize other.lookup base path.dropTrailingSeparators false = right at halike
  · cases halike with
    | refused => exact .refused fault
  · cases halike with
    | found hsame =>
        cases hsame with
        | vacant location =>
            obtain ⟨hne, hnone, hread⟩ := backs_of_lookup hplace
            exact .made ⟨hne, hnone, hreads location hread⟩
        | occupied location hnode => exact .refused .alreadyExists

theorem SameOn.makeOrKeepDirectory (h : SameOn region files other)
    (hreads : ∀ read ∈ files.makeOrKeepReads base path, region read = true) :
    EnsuredAlike region files other (files.makeOrKeepDirectory base path)
      (other.makeOrKeepDirectory base path) := by
  have hmade := h.makeDirectory fun read hread => hreads read (List.mem_append_left _ hread)
  unfold makeOrKeepReads at hreads
  unfold Files.makeOrKeepDirectory
  generalize files.makeDirectory base path = left, other.makeDirectory base path = right at hmade hreads
  cases hmade with
  | @made location hfree =>
      refine ⟨rfl, [location], rfl, rfl, fun found hfound => ?_⟩
      obtain rfl := List.mem_singleton.mp hfound
      exact hfree
  | refused fault =>
      have hkept := h.isDirectory fun read hread => hreads read (List.mem_append_right _ hread)
      refine ⟨?_, [], rfl, rfl, fun found hfound => nomatch hfound⟩
      rw [hkept]

theorem EnsuredAlike.andThen {made made' : Files} {left right : Except Fault Unit × Files}
    {result result' : Except Fault Unit}
    (hfirst : EnsuredAlike region files other (result, made) (result', made'))
    (hsecond : EnsuredAlike region made made' left right) :
    EnsuredAlike region files other left right := by
  obtain ⟨first, hleft, hright, hfree⟩ := hfirst.made
  obtain ⟨second, hleft', hright', hfree'⟩ := hsecond.made
  simp only at hleft hright
  subst hleft hright
  refine ⟨hsecond.result, first ++ second, ?_, ?_, fun location hlocation => ?_⟩
  · rw [withDirectories_append, hleft']
  · rw [withDirectories_append, hright']
  · rcases List.mem_append.mp hlocation with hmem | hmem
    · exact hfree location hmem
    · obtain ⟨hne, hnone, hregion⟩ := hfree' location hmem
      rw [node?_withDirectories fun location hmem => (hfree location hmem).ne] at hnone
      split at hnone
      · cases hnone
      · exact ⟨hne, hnone, hregion⟩

theorem EnsuredAlike.sameOn {left right : Except Fault Unit × Files}
    (halike : EnsuredAlike region files other left right) (h : SameOn region files other) :
    SameOn region left.2 right.2 := by
  obtain ⟨locations, hleft, hright, _⟩ := halike.made
  rw [hleft, hright]
  exact h.withDirectories locations

theorem SameOn.ensureFrom (h : SameOn region files other) {components : List Path.Component}
    (hreads : ∀ read ∈ files.ensureFromReads base path components, region read = true) :
    EnsuredAlike region files other (files.ensureFrom base path components)
      (other.ensureFrom base path components) := by
  induction components generalizing path with
  | nil => exact h.makeOrKeepDirectory hreads
  | cons component above ih =>
      rcases above with _ | ⟨next, above⟩
      · exact h.makeOrKeepDirectory hreads
      unfold ensureFromReads at hreads
      unfold Files.ensureFrom
      have hfirst : ∀ read ∈ files.makeDirectoryReads base path, region read = true := by
        intro read hread
        apply hreads
        split <;> exact List.mem_append_left _ hread
      have hmissing := (h.makeDirectory hfirst).eq_error_iff .notFound
      by_cases hleft : files.makeDirectory base path = .error .notFound
      · rw [hleft] at hreads
        rw [hleft, hmissing.mp hleft]
        simp only at hreads ⊢
        have halike := ih fun read hread =>
          hreads read (List.mem_append_right _ (List.mem_append_left _ hread))
        have hlater := fun read hread =>
          hreads read (List.mem_append_right _ (List.mem_append_right _ hread))
        rcases hmade : files.ensureFrom base (.ofComponents (next :: above).reverse)
          (next :: above) with ⟨result, made⟩
        rcases hmade' : other.ensureFrom base (.ofComponents (next :: above).reverse)
          (next :: above) with ⟨result', made'⟩
        rw [hmade] at halike hlater
        rw [hmade'] at halike
        obtain rfl : result = result' := halike.result
        have hsame : SameOn region made made' := halike.sameOn h
        cases result with
        | error fault => exact halike
        | ok _ => exact halike.andThen (hsame.makeOrKeepDirectory hlater)
      · have hright : other.makeDirectory base path ≠ .error .notFound := mt hmissing.mpr hleft
        split
        · contradiction
        · apply h.makeOrKeepDirectory
          intro read hread
          apply hreads
          split
          · contradiction
          · exact hread

theorem SameOn.ensureDirectory (h : SameOn region files other)
    (hreads : ∀ read ∈ files.ensureDirectoryReads base path, region read = true) :
    EnsuredAlike region files other (files.ensureDirectory base path)
      (other.ensureDirectory base path) := by
  unfold ensureDirectoryReads at hreads
  unfold Files.ensureDirectory
  by_cases hempty : path.text.isEmpty
  · rw [if_pos hempty, if_pos hempty]
    exact ⟨rfl, [], rfl, rfl, fun location hlocation => nomatch hlocation⟩
  · rw [if_neg hempty] at hreads
    rw [if_neg hempty, if_neg hempty]
    exact h.ensureFrom hreads

/-- Where nothing was made in one of them, nothing was made in the other one. -/
theorem EnsuredAlike.confined {left right : Except Fault Unit × Files} {apart : Region}
    (halike : EnsuredAlike region files other left right) (h : SameOn apart files left.2) :
    SameOn apart other right.2 := by
  obtain ⟨locations, hleft, hright, hfree⟩ := halike.made
  rw [hright]
  apply sameOn_withDirectories
  intro location hlocation
  rw [Bool.eq_false_iff]
  intro hapart
  have hnode := h.node? hapart
  rw [hleft, node?_withDirectories (fun location hmem => (hfree location hmem).ne),
    if_pos hlocation, (hfree location hlocation).none] at hnode
  cases hnode

/-! ### Listing a directory -/

theorem SameOn.listFiles (h : SameOn region files other)
    (hwithin : files.ListsWithin region base path) :
    files.listFiles base path = other.listFiles base path := by
  have hreads := hwithin.reads
  unfold listFilesReads at hreads
  have hfound := h.openDirectory fun read hread => hreads read (List.mem_append_left _ hread)
  have hlist : files.list base path = other.list base path := by
    unfold Files.list
    rw [← hfound]
    cases hdirectory : files.openDirectory base path with
    | error fault => rfl
    | ok location => exact congrArg Except.ok (h.names (hwithin.entries location hdirectory))
  unfold Files.listFiles
  rw [← hlist]
  cases hnames : files.list base path with
  | error fault => rfl
  | ok names =>
      rw [hnames] at hreads
      refine congrArg Except.ok (List.filter_congr fun name hname => ?_)
      apply h.isFile
      intro read hread
      exact hreads read (List.mem_append_right _ (List.mem_flatMap.mpr ⟨name, hname, hread⟩))

end Files

end Assay
