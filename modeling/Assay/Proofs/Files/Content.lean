import Assay.Proofs.Files.Growth

/-!
# What is in a file

Contents are kept at the locations of a file and written to under its number, so a write reaches the file wherever
it is and leaves the ways to it as they are.
-/

namespace Assay

def Node.id? : Node → Option FileId
  | .file id _ _ => some id
  | _ => none

namespace Files

/-- The node with what is written to this file. -/
def rewritten (id : FileId) (content : Bytes) : Node → Node
  | .file other old executable => .file other (if other = id then content else old) executable
  | node => node

theorem mem_of_node?_file {files : Files} {location : Location} {id : FileId} {content : Bytes}
    {executable : Bool}
    (h : files.node? location = some (.file id content executable)) :
    location ≠ [] ∧ (location, .file id content executable) ∈ files.nodes.entries := by
  cases location with
  | nil => simp [node?] at h
  | cons name rest => exact ⟨List.cons_ne_nil _ _, Table.mem_of_find?_eq_some h⟩

theorem node?_setContent (files : Files) (id : FileId) (content : Bytes) (location : Location) :
    (files.setContent id content).node? location =
      (files.node? location).map (rewritten id content) := by
  cases location with
  | nil => rfl
  | cons name rest =>
      simp only [node?, setContent, Table.find?, Table.mapValues, List.find?_map, List.isEmpty_cons,
        Bool.false_eq_true, if_false, Option.map_map]
      congr 1

/-- The place with what is written to this file. -/
def rewrittenPlace (id : FileId) (content : Bytes) : Place → Place
  | .occupied location node => .occupied location (rewritten id content node)
  | .vacant location => .vacant location

/-- Writing to a file does not change where paths lead, only what is found there. -/
theorem lookup_setContent {files other : Files} {id : FileId} {content : Bytes} {base : Location}
    {path : Path} {follow : Bool} {place : Place} (h : files.lookup base path follow = .ok place)
    (hnodes : other.nodes = (files.setContent id content).nodes) :
    other.lookup base path follow = .ok (rewrittenPlace id content place) := by
  have hnode (read : Location) : other.node? read =
      (files.node? read).map (rewritten id content) := by
    rw [← node?_setContent, node?, node?, hnodes]
  have hreads : ∀ read ∈ files.lookupReads base path follow,
      Option.Rel (fun left right => right = rewritten id content left) (files.node? read)
        (other.node? read) := by
    intro read _
    rw [hnode read]
    cases files.node? read with
    | none => exact .none
    | some found => exact .some rfl
  have halike := lookup_alike (by
    rintro left _ rfl
    cases left <;> simp [Node.SameShape, rewritten]) hreads
  rw [h] at halike
  generalize other.lookup base path follow = result at halike
  cases halike with
  | found hplace =>
      cases hplace with
      | occupied _ hnode => rw [hnode, rewrittenPlace]
      | vacant _ => rfl

theorem find_setContent {files other : Files} {id : FileId} {content : Bytes} {base location : Location}
    {path : Path} {node : Node} (h : files.find base path = .ok (location, node))
    (hnodes : other.nodes = (files.setContent id content).nodes) :
    other.find base path = .ok (location, rewritten id content node) := by
  rw [find_eq_ok_iff] at h ⊢
  exact lookup_setContent h hnodes

theorem content?_eq_some {files : Files} {id : FileId} {content : Bytes} {location : Location}
    {executable : Bool} (hmem : (location, .file id content executable) ∈ files.nodes.entries)
    (hsame : ∀ entry ∈ files.nodes.entries, ∀ other executable,
      entry.2 = .file id other executable → other = content) :
    files.content? id = some content := by
  rw [content?]
  cases hfound : files.nodes.entries.findSome? _ with
  | none =>
      have hnone := List.findSome?_eq_none_iff.mp hfound _ hmem
      simp at hnone
  | some found =>
      obtain ⟨entry, hentry, heq⟩ := List.exists_of_findSome?_eq_some hfound
      split at heq
      · next other content' executable' hfile =>
        obtain ⟨hid, hcontent⟩ := Option.ite_none_right_eq_some.mp heq
        subst hid
        rw [← Option.some.inj hcontent, hsame entry hentry _ _ hfile]
      · cases heq

/-- Whoever appends writes at the end, wherever they were before. -/
theorem write_append {files : Files} {stream : StreamId} {id : FileId} {position : Nat} {content : Bytes}
    (hstream : files.streams[stream.number]? = some ⟨id, position, true⟩)
    (hcontent : files.content? id = some content) (bytes : Bytes) :
    files.write stream bytes =
      { files.setContent id (content ++ bytes) with
        streams := files.streams.set stream.number ⟨id, content.size + bytes.size, true⟩ } := by
  simp [write, hstream, hcontent, Bytes.overwrite]

end Files

end Assay
