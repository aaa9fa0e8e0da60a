import Assay.Proofs.Files.Content
import Assay.Proofs.Files.Made

/-!
# Files of one stream each

Several files are written at the same time, each through a stream of its own. That none of them gets in the way of
another rests on three things: they are at different locations, no file has two names, and a new file gets a new
number. Then opening or writing one of them is seen by no path that leads to another.
-/

namespace Assay

namespace Files

variable {files : Files} {follow : Bool}

/-! ### What lookups pass through -/

theorem passable_of_lookup {base : Location} {path : Path} {place : Place}
    (h : files.lookup base path follow = .ok place) :
    ∀ read ∈ files.lookupReads base path follow, read = place.location ∨ files.Passable read := by
  obtain ⟨before, hreads, hbefore⟩ := (reaches_of_lookup h).passable
  intro read hread
  rw [hreads] at hread
  rcases List.mem_append.mp hread with hmem | hlast
  · exact .inr (hbefore read hmem)
  · exact .inl (List.mem_singleton.mp hlast)

theorem lookup_put_elsewhere {base location : Location} {path : Path} {place : Place} {node : Node}
    (h : files.lookup base path follow = .ok place) (hne : location ≠ [])
    (helsewhere : location ≠ place.location) (hend : ¬ files.Passable location) :
    (files.put location node).lookup base path follow = .ok place := by
  rw [lookup_eq fun read hread => ?_, h]
  have hother : location ≠ read := by
    rintro rfl
    rcases passable_of_lookup h _ hread with hplace | hpassable
    · exact helsewhere hplace
    · exact hend hpassable
  rw [node?_put hne, if_neg hother]

theorem lookup_put_file {base location : Location} {path : Path} {id id' : FileId}
    {content content' : Bytes} {executable executable' : Bool} (hne : location ≠ [])
    (h : files.lookup base path follow = .ok (.occupied location (.file id content executable))) :
    (files.put location (.file id' content' executable')).lookup base path follow =
      .ok (.occupied location (.file id' content' executable')) := by
  have hnode : files.node? location = some (.file id content executable) := (backs_of_lookup h).1
  have hreads : ∀ read ∈ files.lookupReads base path follow,
      Option.Rel Node.SameShape (files.node? read)
        ((files.put location (.file id' content' executable')).node? read) := by
    intro read _
    rw [node?_put hne]
    by_cases heq : location = read
    · rw [if_pos heq, ← heq, hnode]
      exact .some trivial
    · rw [if_neg heq]
      cases files.node? read with
      | none => exact .none
      | some node => exact .some (sameShape_of_eq node node rfl)
  have halike := lookup_alike (fun _ _ hshape => hshape) hreads
  rw [h] at halike
  rcases hlookup : (files.put location (.file id' content' executable')).lookup base path follow
    with fault | place
  · rw [hlookup] at halike
    cases halike
  · rw [hlookup] at halike
    cases halike with
    | found hplace =>
        cases hplace with
        | @occupied _ _ right hshape =>
            have hright := (backs_of_lookup hlookup).1
            rw [node?_put hne, if_pos rfl] at hright
            rw [Option.some.inj hright]

/-! ### Numbers and names -/

/-- The next number is that of no file. -/
def Fresh (files : Files) : Prop :=
  ∀ entry ∈ files.nodes.entries, ∀ id, entry.2.id? = some id → id.number < files.nextFile

/-- The file has no other name. -/
def Sole (files : Files) (id : FileId) (location : Location) : Prop :=
  ∀ entry ∈ files.nodes.entries, entry.2.id? = some id → entry.1 = location

instance (files : Files) : Decidable files.Fresh :=
  inferInstanceAs (Decidable
    (∀ entry ∈ files.nodes.entries, ∀ id ∈ entry.2.id?, id.number < files.nextFile))

instance (files : Files) (id : FileId) (location : Location) : Decidable (files.Sole id location) :=
  inferInstanceAs (Decidable
    (∀ entry ∈ files.nodes.entries, entry.2.id? = some id → entry.1 = location))

theorem Sole.location_eq {id : FileId} {location other : Location} {content : Bytes}
    {executable : Bool} (h : files.Sole id location)
    (hother : files.node? other = some (.file id content executable)) : other = location :=
  h _ (mem_of_node?_file hother).2 rfl

theorem Sole.put {id id' : FileId} {location location' : Location} {content : Bytes}
    {executable : Bool} (h : files.Sole id location) (hid : id' = id → location' = location) :
    (files.put location' (.file id' content executable)).Sole id location := by
  intro entry hentry hnumber
  rcases Table.mem_putInto hentry with hold | rfl
  · exact h entry hold hnumber
  · exact hid (Option.some.inj hnumber)

theorem Fresh.sole (h : files.Fresh) (location : Location) :
    files.Sole ⟨files.nextFile⟩ location := by
  intro entry hentry hnumber
  exact absurd (h entry hentry _ hnumber) (Nat.lt_irrefl _)

theorem Fresh.put_directory (h : files.Fresh) (location : Location) :
    (files.put location .directory).Fresh := by
  intro entry hentry id hnumber
  rcases Table.mem_putInto hentry with hold | rfl
  · exact h entry hold id hnumber
  · cases hnumber

theorem Fresh.ensureDirectory (h : files.Fresh) (base : Location) (path : Path) :
    (files.ensureDirectory base path).2.Fresh :=
  ensureDirectory_keeps (fun _ location hfresh => hfresh.put_directory location) h base path

theorem id?_rewritten (id : FileId) (content : Bytes) (node : Node) :
    (rewritten id content node).id? = node.id? := by
  cases node <;> rfl

theorem entries_setContent (files : Files) (id : FileId) (content : Bytes) :
    (files.setContent id content).nodes.entries =
      files.nodes.entries.map fun entry => (entry.1, rewritten id content entry.2) := rfl

theorem Sole.setContent {id other : FileId} {location : Location} (h : files.Sole id location)
    (content : Bytes) : (files.setContent other content).Sole id location := by
  intro entry hentry hnumber
  rw [entries_setContent] at hentry
  obtain ⟨old, hold, rfl⟩ := List.mem_map.mp hentry
  rw [id?_rewritten] at hnumber
  exact h old hold hnumber

theorem Fresh.setContent (h : files.Fresh) (id : FileId) (content : Bytes) :
    (files.setContent id content).Fresh := by
  intro entry hentry other hnumber
  rw [entries_setContent] at hentry
  obtain ⟨old, hold, rfl⟩ := List.mem_map.mp hentry
  rw [id?_rewritten] at hnumber
  exact h old hold other hnumber

theorem Fresh.write (h : files.Fresh) (stream : StreamId) (bytes : Bytes) :
    (files.write stream bytes).Fresh := by
  unfold Files.write
  split
  · exact h
  · exact h.setContent _ _

/-- What is read under the number of a file with one name is what is read under that name. -/
theorem Sole.content?_eq {id : FileId} {location : Location} {content : Bytes} {executable : Bool}
    (h : files.Sole id location)
    (hnode : files.node? location = some (.file id content executable)) :
    files.content? id = some content := by
  have hfind : files.nodes.find? location = some (.file id content executable) := by
    cases location with
    | nil => simp [node?] at hnode
    | cons name rest => exact hnode
  unfold Sole at h
  unfold content?
  rw [Table.find?] at hfind
  generalize files.nodes.entries = entries at h hfind ⊢
  -- One looks for the name and the other for the number, but both take the first entry that has it.
  induction entries with
  | nil => cases hfind
  | cons entry rest ih =>
      by_cases hhere : entry.1 = location
      · rw [List.find?_cons_of_pos (by simpa using hhere)] at hfind
        have hentry : entry.2 = .file id content executable := by simpa using hfind
        simp [hentry]
      · have hnot : entry.2.id? ≠ some id := fun hid => hhere (h entry (List.mem_cons_self ..) hid)
        rw [List.find?_cons_of_neg (by simpa using hhere)] at hfind
        have hrest := ih (fun other hother => h other (List.mem_cons_of_mem _ hother)) hfind
        rw [List.findSome?_cons]
        split
        · next found hfound =>
          split at hfound
          · next other old executable hentry =>
            obtain ⟨rfl, -⟩ := Option.ite_none_right_eq_some.mp hfound
            exact absurd (congrArg Node.id? hentry) hnot
          · cases hfound
        · exact hrest

/-! ### What becomes of a file -/

/-- Nothing was opened here yet: the name is free, or is the only one of a file. -/
inductive Awaits (files : Files) (path : Path) (location : Location) : Prop
  | vacant (hlookup : files.lookup files.directory path false = .ok (.vacant location))
  | plain {id : FileId} {content : Bytes} {executable : Bool}
      (hlookup : files.lookup files.directory path false =
        .ok (.occupied location (.file id content executable)))
      (hsole : files.Sole id location)

/-- The stream is open at the end of the file here, which has this content and no other name. -/
inductive Carries (files : Files) (path : Path) (location : Location) (stream : StreamId)
    (content : Bytes) : Prop
  | intro {id : FileId} {executable : Bool}
      (hstream : files.streams[stream.number]? = some ⟨id, content.size, false⟩)
      (hlookup : files.lookup files.directory path false =
        .ok (.occupied location (.file id content executable)))
      (hsole : files.Sole id location)

/-- What a path bears: nothing yet, or what has come through the stream that was opened for it. -/
def Bears (files : Files) (path : Path) (location : Location) : Option (StreamId × Bytes) → Prop
  | none => files.Awaits path location
  | some (stream, content) => files.Carries path location stream content

/-- The files are as before as far as these paths are concerned: each leads where it led, to the same content and to
a file with no more names than it had. Whatever was open is open still, and new files have got new numbers. -/
structure Confined (paths : List Path) (before after : Files) : Prop where
  streams : before.streams <+: after.streams
  fresh : before.Fresh → after.Fresh
  lookup : ∀ path ∈ paths,
    after.lookup after.directory path false = before.lookup before.directory path false
  sole : ∀ path ∈ paths, ∀ location id content executable,
    before.lookup before.directory path false =
        .ok (.occupied location (.file id content executable)) →
      before.Sole id location → after.Sole id location

theorem Confined.refl (paths : List Path) (files : Files) : Confined paths files files where
  streams := List.prefix_rfl
  fresh := id
  lookup _ _ := rfl
  sole _ _ _ _ _ _ _ := id

section Bears

variable {path other : Path} {location location' : Location} {stream : StreamId} {content : Bytes}
  {state : Option (StreamId × Bytes)}

theorem Carries.read_eq (h : files.Carries path location stream content) :
    files.read files.directory path = .ok content := by
  cases h with
  | intro hstream hlookup hsole =>
      rw [read, find, lookup_true (by simp) hlookup]

theorem Confined.bears {paths : List Path} {before after : Files} (h : Confined paths before after)
    (hpath : path ∈ paths) (hbears : before.Bears path location state) :
    after.Bears path location state := by
  have hsame := h.lookup path hpath
  rcases state with _ | ⟨stream, content⟩
  · cases hbears with
    | vacant hlookup => exact .vacant (hsame.trans hlookup)
    | plain hlookup hsole =>
        exact .plain (hsame.trans hlookup) (h.sole path hpath _ _ _ _ hlookup hsole)
  · cases hbears with
    | intro hstream hlookup hsole =>
        refine .intro ?_ (hsame.trans hlookup) (h.sole path hpath _ _ _ _ hlookup hsole)
        obtain ⟨later, hlater⟩ := h.streams
        rw [← hlater, List.getElem?_append_left (List.getElem?_eq_some_iff.mp hstream).1, hstream]

/-! ### Opening -/

def opened (files : Files) (location : Location) (id : FileId) (executable : Bool) (next : Nat) :
    Files :=
  { files.put location (.file id ByteArray.empty executable) with
    streams := files.streams ++ [⟨id, 0, false⟩]
    nextFile := next }

/-- What opening a path that waits for it comes to. -/
structure Opens (files : Files) (path : Path) (location : Location) (id : FileId) (executable : Bool)
    (next : Nat) : Prop where
  ne_nil : location ≠ []
  ended : ¬ files.Passable location
  sole : files.Sole id location
  below : id.number < next
  grown : files.nextFile ≤ next
  openStream_eq : files.openStream files.directory path .truncate =
    .ok (⟨files.streams.length⟩, files.opened location id executable next)
  found : (files.opened location id executable next).lookup
    (files.opened location id executable next).directory path false =
      .ok (.occupied location (.file id ByteArray.empty executable))

theorem Awaits.opens (h : files.Awaits path location) (hfresh : files.Fresh)
    (hends : path.endsInSeparator = false) :
    ∃ id executable next, files.Opens path location id executable next := by
  have hsame (id : FileId) (executable : Bool) (next : Nat) :
      (files.opened location id executable next).lookup
        (files.opened location id executable next).directory path false =
      (files.put location (.file id ByteArray.empty executable)).lookup files.directory path false :=
    lookup_eq fun _ _ => rfl
  have hdrop := Path.dropTrailingSeparators_eq hends
  cases h with
  | vacant hlookup =>
      obtain ⟨hne, hfree, -⟩ := backs_of_lookup hlookup
      refine ⟨⟨files.nextFile⟩, false, files.nextFile + 1, hne, ?_, hfresh.sole location,
        Nat.lt_succ_self _, Nat.le_succ _, ?_, ?_⟩
      · rintro (⟨readable, hdirectory⟩ | ⟨target, hlink⟩)
        · rw [hfree] at hdirectory
          cases hdirectory
        · rw [hfree] at hlink
          cases hlink
      · rw [openStream, hdrop, lookup_true (by simp) hlookup]
        simp [hends, pushStream, opened, put]
      · rw [hsame]
        exact lookup_put (by simp) hlookup
  | @plain id content executable hlookup hsole =>
      have hnode := (backs_of_lookup hlookup).1
      obtain ⟨hne, hmem⟩ := mem_of_node?_file hnode
      refine ⟨id, executable, files.nextFile, hne, ?_, hsole, hfresh _ hmem id rfl, Nat.le_refl _,
        ?_, ?_⟩
      · rintro (⟨readable, hdirectory⟩ | ⟨target, hlink⟩)
        · rw [hnode] at hdirectory
          cases hdirectory
        · rw [hnode] at hlink
          cases hlink
      · rw [openStream, hdrop, lookup_true (by simp) hlookup]
        simp [hends, pushStream, opened, put]
      · rw [hsame]
        exact lookup_put_file hne hlookup

variable {id : FileId} {executable : Bool} {next : Nat}

theorem Opens.fresh (h : files.Opens path location id executable next) (hfresh : files.Fresh) :
    (files.opened location id executable next).Fresh := by
  intro entry hentry number hnumber
  rcases Table.mem_putInto hentry with hold | rfl
  · exact Nat.lt_of_lt_of_le (hfresh entry hold number hnumber) h.grown
  · cases hnumber
    exact h.below

theorem Opens.carries (h : files.Opens path location id executable next) :
    (files.opened location id executable next).Carries path location ⟨files.streams.length⟩
      ByteArray.empty := by
  refine .intro ?_ h.found (h.sole.put fun _ => rfl)
  simp [opened]

theorem Opens.bears_other (h : files.Opens path location id executable next)
    (hother : location ≠ location') (hbears : files.Bears other location' state) :
    (files.opened location id executable next).Bears other location' state := by
  have hlookup {place : Place} (hplace : files.lookup files.directory other false = .ok place)
      (hthere : place.location = location') :
      (files.opened location id executable next).lookup
        (files.opened location id executable next).directory other false = .ok place := by
    have hput : (files.put location (.file id ByteArray.empty executable)).lookup files.directory
        other false = .ok place :=
      lookup_put_elsewhere hplace h.ne_nil (hthere ▸ hother) h.ended
    rw [← hput]
    exact lookup_eq fun _ _ => rfl
  have hsole {id' : FileId} {content' : Bytes} {executable' : Bool}
      (hplace : files.lookup files.directory other false =
        .ok (.occupied location' (.file id' content' executable')))
      (hkept : files.Sole id' location') :
      (files.opened location id executable next).Sole id' location' := by
    apply hkept.put
    rintro rfl
    exact absurd (h.sole.location_eq (backs_of_lookup hplace).1) (Ne.symm hother)
  rcases state with _ | ⟨stream, content⟩
  · cases hbears with
    | vacant hvacant => exact .vacant (hlookup hvacant rfl)
    | plain hplain hkept => exact .plain (hlookup hplain rfl) (hsole hplain hkept)
  · cases hbears with
    | intro hstream hplace hkept =>
        refine .intro ?_ (hlookup hplace rfl) (hsole hplace hkept)
        have hlength := (List.getElem?_eq_some_iff.mp hstream).1
        rw [opened, List.getElem?_append_left hlength, hstream]

/-! ### Writing -/

theorem write_eq {id : FileId} {executable : Bool}
    (hstream : files.streams[stream.number]? = some ⟨id, content.size, false⟩)
    (hnode : files.node? location = some (.file id content executable))
    (hsole : files.Sole id location) (bytes : Bytes) :
    files.write stream bytes =
      { files.setContent id (content ++ bytes) with
        streams := files.streams.set stream.number ⟨id, content.size + bytes.size, false⟩ } := by
  simp [write, hstream, hsole.content?_eq hnode, Bytes.overwrite]

theorem Carries.write (h : files.Carries path location stream content) (bytes : Bytes) :
    (files.write stream bytes).Carries path location stream (content ++ bytes) := by
  cases h with
  | @intro id executable hstream hlookup hsole =>
      have hwrite := write_eq hstream (backs_of_lookup hlookup).1 hsole bytes
      have hnodes : (files.write stream bytes).nodes = (files.setContent id (content ++ bytes)).nodes := by
        rw [hwrite]
      have hlength := (List.getElem?_eq_some_iff.mp hstream).1
      have hopen : (files.write stream bytes).streams[stream.number]? =
          some ⟨id, (content ++ bytes).size, false⟩ := by
        rw [hwrite]
        simp [hlength, ByteArray.size_append]
      have hfound : (files.write stream bytes).lookup (files.write stream bytes).directory path false =
          .ok (.occupied location (.file id (content ++ bytes) executable)) := by
        have hnew := lookup_setContent hlookup hnodes
        simp only [rewrittenPlace, rewritten, if_true] at hnew
        rw [← hnew, hwrite]
        rfl
      refine .intro hopen hfound ?_
      rw [hwrite]
      exact hsole.setContent _

/-- What is written to a file is written to no other. -/
theorem Carries.bears_other (h : files.Carries path location stream content)
    (hother : location ≠ location') (hbears : files.Bears other location' state) (bytes : Bytes) :
    (files.write stream bytes).Bears other location' state := by
  cases h with
  | @intro id executable hstream hlookup hsole =>
      have hwrite := write_eq hstream (backs_of_lookup hlookup).1 hsole bytes
      have hnodes : (files.write stream bytes).nodes = (files.setContent id (content ++ bytes)).nodes := by
        rw [hwrite]
      have hdirectory : (files.write stream bytes).directory = files.directory := by
        rw [hwrite]
        rfl
      have hdistinct {id' : FileId} {content' : Bytes} {executable' : Bool}
          (hplace : files.lookup files.directory other false =
            .ok (.occupied location' (.file id' content' executable'))) : id' ≠ id := by
        rintro rfl
        exact hother (hsole.location_eq (backs_of_lookup hplace).1).symm
      have hoccupied {id' : FileId} {content' : Bytes} {executable' : Bool}
          (hplace : files.lookup files.directory other false =
            .ok (.occupied location' (.file id' content' executable'))) :
          (files.write stream bytes).lookup (files.write stream bytes).directory other false =
            .ok (.occupied location' (.file id' content' executable')) := by
        rw [hdirectory, lookup_setContent hplace hnodes]
        simp [rewrittenPlace, rewritten, hdistinct hplace]
      rcases state with _ | ⟨stream', content'⟩
      · cases hbears with
        | vacant hvacant =>
            refine .vacant ?_
            rw [hdirectory, lookup_setContent hvacant hnodes]
            rfl
        | plain hplain hkept =>
            refine .plain (hoccupied hplain) ?_
            rw [hwrite]
            exact hkept.setContent _
      · cases hbears with
        | intro hstream' hplace hkept =>
            refine .intro ?_ (hoccupied hplace) ?_
            · have hnumber : stream.number ≠ stream'.number := by
                intro hsame
                rw [hsame, hstream'] at hstream
                exact hdistinct hplace (congrArg Stream.file (Option.some.inj hstream))
              rw [hwrite]
              simpa [List.getElem?_set_ne hnumber] using hstream'
            · rw [hwrite]
              exact hkept.setContent _

end Bears

end Files

end Assay
