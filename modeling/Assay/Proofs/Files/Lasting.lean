import Assay.Proofs.Files.Content
import Assay.Proofs.Files.Made

/-!
# What lasts

As long as nothing is removed or replaced, and files are only added to, a path that leads somewhere goes on leading
there, and a stream goes on writing to its file. This is all that several users of the same files have to know
about each other, whatever else they do.
-/

namespace Assay

namespace Files

/-- The file that a path leads to. -/
def fileId? (files : Files) (path : Path) : Option FileId :=
  match files.find files.directory path with
  | .ok (_, .file id _ _) => some id
  | _ => none

theorem fileId?_eq_some_iff {files : Files} {path : Path} {id : FileId} :
    files.fileId? path = some id ↔ ∃ location content executable,
      files.find files.directory path = .ok (location, .file id content executable) := by
  unfold fileId?
  rcases files.find files.directory path with fault | ⟨location, _ | _ | target⟩ <;> simp

/-- What was found is found still, and whatever was open is open still. A file may have another content. -/
structure Lasting (before after : Files) : Prop where
  directory : after.directory = before.directory
  found : ∀ path location, before.findDirectory before.directory path = .ok location →
    after.findDirectory after.directory path = .ok location
  file : ∀ path location id content executable,
    before.find before.directory path = .ok (location, .file id content executable) →
      ∃ other, after.find after.directory path = .ok (location, .file id other executable)
  streams : ∀ (number : Nat) (stream : Stream), before.streams[number]? = some stream →
    ∃ position, after.streams[number]? = some { stream with position }

namespace Lasting

variable {before after last : Files}

theorem trans (h : Lasting before after) (hlast : Lasting after last) : Lasting before last where
  directory := hlast.directory.trans h.directory
  found path location hfound := hlast.found path location (h.found path location hfound)
  file path location id content executable hfile := by
    obtain ⟨other, hother⟩ := h.file path location id content executable hfile
    exact hlast.file path location id other executable hother
  streams number stream hstream := by
    obtain ⟨position, hafter⟩ := h.streams number stream hstream
    exact hlast.streams number { stream with position } hafter

theorem enters {directory : Path} {above : Location} (h : Lasting before after)
    (henters : before.Enters directory above) : after.Enters directory above := by
  unfold Enters at henters ⊢
  by_cases hempty : directory.text = ""
  · rw [if_pos hempty] at henters ⊢
    exact henters.trans h.directory.symm
  · rw [if_neg hempty] at henters ⊢
    exact h.found directory above henters

theorem fileId? {path : Path} {id : FileId} (h : Lasting before after)
    (hid : before.fileId? path = some id) : after.fileId? path = some id := by
  obtain ⟨location, content, executable, hfind⟩ := fileId?_eq_some_iff.mp hid
  obtain ⟨other, hother⟩ := h.file path location id content executable hfind
  exact fileId?_eq_some_iff.mpr ⟨location, other, executable, hother⟩

/-- Where everything that is found stays as it is, it lasts. -/
theorem of_find (hdirectory : after.directory = before.directory)
    (hfind : ∀ path location node, before.find before.directory path = .ok (location, node) →
      after.find before.directory path = .ok (location, node))
    (hstreams : before.streams <+: after.streams) : Lasting before after where
  directory := hdirectory
  found path location hfound := by
    rw [findDirectory_eq_ok_iff] at hfound ⊢
    obtain ⟨readable, hlookup⟩ := hfound
    rw [hdirectory]
    exact ⟨readable, find_eq_ok_iff.mp (hfind path location _ (find_eq_ok_iff.mpr hlookup))⟩
  file path location id content executable hfile := by
    rw [hdirectory]
    exact ⟨content, hfind path location _ hfile⟩
  streams number stream hstream := by
    obtain ⟨later, hlater⟩ := hstreams
    refine ⟨stream.position, ?_⟩
    rw [← hlater, List.getElem?_append_left (List.getElem?_eq_some_iff.mp hstream).1, hstream]

/-- Opening a file that is there. -/
theorem of_nodes (hnodes : after.nodes = before.nodes) (hdirectory : after.directory = before.directory)
    (hstreams : before.streams <+: after.streams) : Lasting before after := by
  refine of_find hdirectory (fun path location node hfind => ?_) hstreams
  have hsame : after.lookup before.directory path true = before.lookup before.directory path true :=
    lookup_eq fun read _ => by rw [node?, node?, hnodes]
  rw [find_eq_ok_iff] at hfind ⊢
  rw [hsame, hfind]

/-- Making something where there is nothing. -/
theorem of_put {location : Location} {node : Node} (hne : location ≠ []) (hfree : before.node? location = none)
    (hnodes : after.nodes = (before.put location node).nodes) (hdirectory : after.directory = before.directory)
    (hstreams : before.streams <+: after.streams) : Lasting before after := by
  have hput : Lasting before (before.put location node) :=
    of_find rfl (fun _ _ _ hfind => find_put_of_free hfind hne hfree) List.prefix_rfl
  exact hput.trans (of_nodes hnodes hdirectory hstreams)

theorem of_grown (h : Grown before after) : Lasting before after := by
  have hstreams : after.streams = before.streams := by
    induction h with
    | same => rfl
    | made _ _ _ ih => exact ih
  exact of_find h.directory (fun _ _ _ => h.find_eq) (hstreams ▸ List.prefix_rfl)

/-- A write at the end of a file. -/
theorem of_append {stream : StreamId} {id : FileId} {position : Nat} {content bytes : Bytes}
    (hstream : before.streams[stream.number]? = some ⟨id, position, true⟩)
    (hcontent : before.content? id = some content) : Lasting before (before.write stream bytes) := by
  have hwrite := write_append hstream hcontent bytes
  have hnodes : (before.write stream bytes).nodes = (before.setContent id (content ++ bytes)).nodes := by
    rw [hwrite]
  have hdirectory : (before.write stream bytes).directory = before.directory := by
    rw [hwrite]
    rfl
  refine ⟨hdirectory, fun path location hfound => ?_, fun path location other old executable hfile => ?_,
    fun number open' hopen => ?_⟩
  · rw [findDirectory_eq_ok_iff] at hfound ⊢
    obtain ⟨readable, hlookup⟩ := hfound
    rw [hdirectory]
    exact ⟨readable, find_eq_ok_iff.mp (find_setContent (find_eq_ok_iff.mpr hlookup) hnodes)⟩
  · rw [hdirectory]
    exact ⟨_, find_setContent hfile hnodes⟩
  · rw [hwrite]
    by_cases hsame : stream.number = number
    · subst hsame
      rw [hstream] at hopen
      obtain rfl := Option.some.inj hopen
      have hlength := (List.getElem?_eq_some_iff.mp hstream).1
      exact ⟨_, List.getElem?_set_self hlength⟩
    · exact ⟨open'.position, (List.getElem?_set_ne hsame).trans hopen⟩

end Lasting

end Files

end Assay
