import Assay.ExecuteLog
import Assay.Proofs.Files.Content

/-!
# What is in a log

A log is written through a stream and read through a path, and nothing in the files makes the two stay
together. `Holds` says that they do. It is what a command leaves alone when it does not touch the log, and it
is kept by everything else that a batch does, except that a report adds its line.
-/

namespace Assay

namespace Bytes

theorem ofText_append (first second : String) :
    ofText (first ++ second) = ofText first ++ ofText second :=
  String.toByteArray_append

theorem text?_ofText (text : String) : text? (ofText text) = some text := by
  have hvalid : (ofText text).IsValidUTF8 := text.isValidUTF8
  rw [text?, String.fromUTF8?, dif_pos hvalid]
  rfl

theorem eq_ofText_of_text? {bytes : Bytes} {text : String} (h : bytes.text? = some text) :
    bytes = ofText text := by
  rw [text?, String.fromUTF8?] at h
  split at h
  · cases h
    rfl
  · cases h

end Bytes

namespace ExecuteLog

/-- The stream of the log is open at the end of the file that its path leads to, and the file has this
content. -/
structure Holds (log : ExecuteLog) (content : Bytes) (files : Files) : Prop where
  intro ::
  kept : ∃ stream location executable, files.streams[log.stream.number]? = some stream ∧
    stream.appends = true ∧
    files.find files.directory log.path = .ok (location, .file stream.file content executable) ∧
    ∀ entry ∈ files.nodes.entries, ∀ other executable,
      entry.2 = .file stream.file other executable → other = content

variable {log : ExecuteLog} {content : Bytes} {files : Files}

theorem Holds.read_eq (h : log.Holds content files) :
    files.read files.directory log.path = .ok content := by
  obtain ⟨stream, location, executable, -, -, hfind, -⟩ := h.kept
  simp [Files.read, hfind]

theorem Holds.content_eq {other : Bytes} (h : log.Holds content files)
    (hother : log.Holds other files) : content = other := by
  have hread := h.read_eq
  rw [hother.read_eq] at hread
  exact (Except.ok.inj hread).symm

theorem Holds.readText_eq {text : String} (h : log.Holds (Bytes.ofText text) files) :
    files.readText files.directory log.path = .ok text := by
  rw [Files.readText, h.read_eq]
  simp only [Bytes.text?_ofText]

theorem Holds.put_free {location : Location} (h : log.Holds content files) (hne : location ≠ [])
    (hfree : files.node? location = none) :
    log.Holds content (files.put location .directory) := by
  obtain ⟨stream, found, executable, hstream, happends, hfind, hsame⟩ := h.kept
  refine ⟨stream, found, executable, hstream, happends,
    Files.find_put_of_free hfind hne hfree, fun entry hentry other executable hfile => ?_⟩
  rcases Table.mem_putInto hentry with hold | rfl
  · exact hsame entry hold other executable hfile
  · cases hfile

theorem Holds.ensureDirectory (h : log.Holds content files) (base : Location) (path : Path) :
    log.Holds content (files.ensureDirectory base path).2 := by
  have hgrown := Files.grown_ensureDirectory files base path
  generalize (files.ensureDirectory base path).2 = made at hgrown
  induction hgrown with
  | same => exact h
  | made _ hne hfree ih => exact ih.put_free hne hfree

theorem Holds.write (h : log.Holds content files) (bytes : Bytes) :
    log.Holds (content ++ bytes) (files.write log.stream bytes) := by
  obtain ⟨⟨id, position, appends⟩, location, executable, hstream, rfl, hfind, hsame⟩ := h.kept
  have hnode : files.node? location = some (.file id content executable) :=
    (Files.backs_of_lookup (Files.find_eq_ok_iff.mp hfind)).1
  have hcontent := Files.content?_eq_some (Files.mem_of_node?_file hnode).2 hsame
  have hwrite := Files.write_append hstream hcontent bytes
  have hnodes : (files.write log.stream bytes).nodes =
      (files.setContent id (content ++ bytes)).nodes := by rw [hwrite]
  have hnew := Files.find_setContent hfind hnodes
  simp only [Files.rewritten, if_true] at hnew
  have hlength := (List.getElem?_eq_some_iff.mp hstream).1
  refine ⟨⟨id, content.size + bytes.size, true⟩, location, executable, ?_, rfl, ?_, ?_⟩
  · rw [hwrite]
    simp [hlength]
  · rw [hwrite] at hnew ⊢
    exact hnew
  · rw [hwrite]
    intro entry hentry other executable hfile
    obtain ⟨old, hold, rfl⟩ := List.mem_map.mp hentry
    simp only at hfile
    split at hfile
    · cases hfile
      simp
    · next hnot => exact absurd hfile (by rintro heq; exact hnot _ _ _ heq)

/-- The log is where it was and as it was, and no file is new that somebody has open already. -/
def Undisturbed (log : ExecuteLog) (before after : Files) : Prop :=
  after.streams[log.stream.number]? = before.streams[log.stream.number]? ∧
    (after.find after.directory log.path).toOption =
      (before.find before.directory log.path).toOption ∧
    ∀ entry ∈ after.nodes.entries, entry ∈ before.nodes.entries ∨
      ∀ stream ∈ before.streams, entry.2.id? ≠ some stream.file
deriving Decidable

theorem Undisturbed.holds {before after : Files}
    (h : log.Undisturbed before after) (hholds : log.Holds content before) :
    log.Holds content after := by
  obtain ⟨stream, location, executable, hstream, happends, hfind, hsame⟩ := hholds.kept
  obtain ⟨hstreams, hfound, hentries⟩ := h
  refine ⟨stream, location, executable, hstreams.trans hstream, happends, ?_, ?_⟩
  · rw [hfind] at hfound
    cases hafter : after.find after.directory log.path with
    | error fault =>
        rw [hafter] at hfound
        cases hfound
    | ok found =>
        rw [hafter] at hfound
        rw [Option.some.inj hfound]
  · intro entry hentry other executable hfile
    rcases hentries entry hentry with hold | hnew
    · exact hsame entry hold other executable hfile
    · have hid : entry.2.id? = some stream.file := by rw [hfile]; rfl
      exact absurd hid (hnew stream (List.mem_of_getElem? hstream))

end ExecuteLog

end Assay
