import Assay.Proofs.ExecuteLog.Content
import Assay.Proofs.Files.Made

/-!
# Attaching a log

What is in a log stays when it is attached again, and from then on its stream and its path belong together. The
files only have to be numbered the way they are when every file got its number as it was made.
-/

namespace Assay

namespace Files

/-- No two files share a number, and the next number is free. -/
structure Numbered (files : Files) : Prop where
  below : ∀ entry ∈ files.nodes.entries, ∀ id content executable,
    entry.2 = .file id content executable → id.number < files.nextFile
  same : ∀ entry ∈ files.nodes.entries, ∀ other ∈ files.nodes.entries,
    ∀ id content executable content' executable', entry.2 = .file id content executable →
      other.2 = .file id content' executable' → content = content'

theorem Numbered.put_directory {files : Files} (h : files.Numbered) (location : Location) :
    (files.put location .directory).Numbered where
  below := by
    intro entry hentry id content executable hfile
    rcases Table.mem_putInto hentry with hold | rfl
    · exact h.below entry hold id content executable hfile
    · cases hfile
  same := by
    intro entry hentry other hother id content executable content' executable' hfile hfile'
    rcases Table.mem_putInto hentry with hold | rfl
    · rcases Table.mem_putInto hother with hold' | rfl
      · exact h.same entry hold other hold' id content executable content' executable' hfile hfile'
      · cases hfile'
    · cases hfile

theorem Numbered.ensureDirectory {files : Files} (h : files.Numbered) (base : Location)
    (path : Path) : (files.ensureDirectory base path).2.Numbered :=
  ensureDirectory_keeps (fun _ location hnumbered => hnumbered.put_directory location) h base path

theorem Numbered.put_file {files : Files} (h : files.Numbered) (location : Location) (content : Bytes)
    (executable : Bool) (streams : List Stream) :
    Numbered { files.put location (.file ⟨files.nextFile⟩ content executable) with
      streams
      nextFile := files.nextFile + 1 } where
  below := by
    intro entry hentry id content' executable' hfile
    rcases Table.mem_putInto hentry with hold | rfl
    · exact Nat.lt_succ_of_lt (h.below entry hold id content' executable' hfile)
    · cases hfile
      exact Nat.lt_succ_self _
  same := by
    intro entry hentry other hother id first executable' second executable'' hfile hfile'
    have hfresh {entry : Location × Node} {content' executable'} (hold : entry ∈ files.nodes.entries) :
        entry.2 ≠ .file ⟨files.nextFile⟩ content' executable' := fun hfile =>
      Nat.lt_irrefl _ (h.below entry hold _ content' executable' hfile)
    rcases Table.mem_putInto hentry with hold | rfl <;> rcases Table.mem_putInto hother with hold' | rfl
    · exact h.same entry hold other hold' id first executable' second executable'' hfile hfile'
    · cases hfile'
      exact absurd hfile (hfresh hold)
    · cases hfile
      exact absurd hfile' (hfresh hold')
    · cases hfile
      cases hfile'
      rfl

theorem Numbered.content?_eq_some {files : Files} (h : files.Numbered) {location : Location} {id : FileId}
    {content : Bytes} {executable : Bool}
    (hnode : files.node? location = some (.file id content executable)) : files.content? id = some content :=
  have hmem := (mem_of_node?_file hnode).2
  Files.content?_eq_some hmem fun entry hentry other executable' hfile =>
    h.same entry hentry _ hmem id other executable' content executable hfile rfl

theorem Numbered.setContent {files : Files} (h : files.Numbered) (id : FileId) (content : Bytes) :
    (files.setContent id content).Numbered := by
  have hold {entry : Location × Node} {other : FileId} {found : Bytes} {executable : Bool}
      (hentry : entry ∈ (files.setContent id content).nodes.entries)
      (hfile : entry.2 = .file other found executable) :
      ∃ before ∈ files.nodes.entries, ∃ old, before.2 = .file other old executable ∧
        found = if other = id then content else old := by
    obtain ⟨⟨location, node⟩, hbefore, rfl⟩ := List.mem_map.mp hentry
    rcases node with _ | ⟨other, old, executable⟩ | target
    · cases hfile
    · refine ⟨_, hbefore, old, ?_⟩
      simp only at hfile ⊢
      split at hfile <;> cases hfile <;> simp_all
    · cases hfile
  refine ⟨fun entry hentry other found executable hfile => ?_, fun entry hentry entry' hentry' other found
    executable found' executable' hfile hfile' => ?_⟩
  · obtain ⟨before, hbefore, old, hbefore', -⟩ := hold hentry hfile
    exact h.below before hbefore other old executable hbefore'
  · obtain ⟨before, hbefore, old, hfound, rfl⟩ := hold hentry hfile
    obtain ⟨before', hbefore', old', hfound', rfl⟩ := hold hentry' hfile'
    rw [h.same before hbefore before' hbefore' other old executable old' executable' hfound hfound']

theorem put_eq_self {files : Files} {location : Location} {node : Node} (hne : location ≠ [])
    (h : files.node? location = some node) : files.put location node = files := by
  cases location with
  | nil => exact absurd rfl hne
  | cons name rest =>
      have hfind : files.nodes.find? (name :: rest) = some node := h
      rw [put, Table.put_eq_self hfind]

end Files

namespace ExecuteLog

variable {ρ : Type} {log : ExecuteLog} {before after : World ρ} {directory : Path} {key : String}

variable {files : Files} {location : Location} {path : Path}

theorem holds_opened {id : FileId} {content : Bytes} {executable : Bool}
    (hnumbered : files.Numbered)
    (hlookup : files.lookup files.directory path true =
      .ok (.occupied location (.file id content executable)))
    {opened : Files} (hnodes : opened.nodes = files.nodes)
    (hdirectory : opened.directory = files.directory)
    (hstreams : opened.streams = files.streams ++ [⟨id, 0, true⟩]) :
    Holds ⟨path, ⟨files.streams.length⟩⟩ content opened := by
  have hnode : files.node? location = some (.file id content executable) :=
    (Files.backs_of_lookup hlookup).1
  have hmem := (Files.mem_of_node?_file hnode).2
  have hsame : opened.lookup files.directory path true = files.lookup files.directory path true :=
    Files.lookup_eq fun read _ => by rw [Files.node?, Files.node?, hnodes]
  refine ⟨⟨id, 0, true⟩, location, executable, ?_, rfl, ?_, ?_⟩
  · rw [hstreams]
    simp
  · rw [hdirectory, Files.find_eq_ok_iff, hsame, hlookup]
  · rw [hnodes]
    intro entry hentry other executable' hfile
    exact hnumbered.same entry hentry _ hmem id other executable' content executable hfile rfl

theorem find_made (hlookup : files.lookup files.directory path true = .ok (.vacant location))
    {opened : Files}
    (hnodes : opened.nodes =
      (files.put location (.file ⟨files.nextFile⟩ ByteArray.empty false)).nodes) :
    opened.find files.directory path =
      .ok (location, .file ⟨files.nextFile⟩ ByteArray.empty false) := by
  have hfound : (files.put location (.file ⟨files.nextFile⟩ ByteArray.empty false)).lookup
      files.directory path true =
        .ok (.occupied location (.file ⟨files.nextFile⟩ ByteArray.empty false)) :=
    Files.lookup_put (fun _ => nofun) hlookup
  have hsame : opened.lookup files.directory path true =
      (files.put location (.file ⟨files.nextFile⟩ ByteArray.empty false)).lookup files.directory
        path true :=
    Files.lookup_eq fun read _ => by rw [Files.node?, Files.node?, hnodes]
  rw [Files.find_eq_ok_iff, hsame, hfound]

theorem holds_made (hnumbered : files.Numbered)
    (hlookup : files.lookup files.directory path true = .ok (.vacant location))
    {opened : Files}
    (hnodes : opened.nodes =
      (files.put location (.file ⟨files.nextFile⟩ ByteArray.empty false)).nodes)
    (hdirectory : opened.directory = files.directory)
    (hstreams : opened.streams = files.streams ++ [⟨⟨files.nextFile⟩, 0, true⟩]) :
    Holds ⟨path, ⟨files.streams.length⟩⟩ ByteArray.empty opened := by
  refine ⟨⟨⟨files.nextFile⟩, 0, true⟩, location, false, ?_, rfl, ?_, ?_⟩
  · rw [hstreams]
    simp
  · rw [hdirectory]
    exact find_made hlookup hnodes
  · rw [hnodes]
    intro entry hentry other executable hfile
    rcases Table.mem_putInto hentry with hold | rfl
    · have hbelow := hnumbered.below entry hold _ other executable hfile
      exact absurd hbelow (Nat.lt_irrefl _)
    · cases hfile
      rfl

/-- What attaching a log can come to. The directory may have been made, or a part of it, where it is refused. -/
inductive Attached (directory : Path) (key : String) (before : Files) : Option ExecuteLog → Files → Prop
  | refused : Attached directory key before none (before.ensureDirectory before.directory directory).2
  | kept {made : Files} {location : Location} {id : FileId} {content : Bytes} {executable : Bool}
      (hmade : before.ensureDirectory before.directory directory = (.ok (), made))
      (hlookup : made.lookup made.directory (directory.join ⟨fileName key⟩) true =
        .ok (.occupied location (.file id content executable))) :
      Attached directory key before (some ⟨directory.join ⟨fileName key⟩, ⟨made.streams.length⟩⟩)
        { made with streams := made.streams ++ [⟨id, 0, true⟩] }
  | made {made : Files} {location : Location}
      (hmade : before.ensureDirectory before.directory directory = (.ok (), made))
      (hlookup : made.lookup made.directory (directory.join ⟨fileName key⟩) true = .ok (.vacant location)) :
      Attached directory key before (some ⟨directory.join ⟨fileName key⟩, ⟨made.streams.length⟩⟩)
        { made.put location (.file ⟨made.nextFile⟩ ByteArray.empty false) with
          streams := made.streams ++ [⟨⟨made.nextFile⟩, 0, true⟩]
          nextFile := made.nextFile + 1 }

theorem attached (directory : Path) (key : String) (world : World ρ) :
    Attached directory key world.files (attach directory key world).1.toOption
      (attach directory key world).2.files := by
  unfold attach
  have hrefused : Attached directory key world.files none
      (world.files.ensureDirectory world.files.directory directory).2 := .refused
  rcases hmade : world.files.ensureDirectory world.files.directory directory with ⟨fault | _, made⟩ <;>
    rw [hmade] at hrefused
  · exact hrefused
  simp only [Files.openStream]
  rcases hlookup : made.lookup made.directory (directory.join ⟨fileName key⟩).dropTrailingSeparators true
    with fault | place
  · exact hrefused
  rcases hends : (directory.join ⟨fileName key⟩).endsInSeparator with _ | _ <;>
    simp only [Bool.false_eq_true, if_false, if_true]
  · rw [Path.dropTrailingSeparators_eq hends] at hlookup
    rcases place with ⟨location, _ | ⟨id, content, executable⟩ | target⟩ | location
    · exact hrefused
    · have hnode := (Files.backs_of_lookup hlookup).1
      have hkept := Files.put_eq_self (Files.mem_of_node?_file hnode).1 hnode
      have hopened := Attached.kept hmade hlookup
      simp only [reduceCtorEq, if_false, hkept]
      exact hopened
    · exact hrefused
    · exact .made hmade hlookup
  · exact hrefused

/-- A log that was attached can be read where it is written. -/
theorem holds_attach (hnumbered : before.files.Numbered)
    (h : attach directory key before = (.ok log, after)) :
    ∃ content, log.Holds content after.files := by
  have hattached := attached directory key before
  have hmade := hnumbered.ensureDirectory before.files.directory directory
  rw [h] at hattached
  generalize hlog : (Except.ok log : Except Failure ExecuteLog).toOption = opened,
    after.files = files at hattached
  cases hattached with
  | refused => cases hlog
  | kept hresult hlookup =>
      cases hlog
      rw [hresult] at hmade
      exact ⟨_, holds_opened hmade hlookup rfl rfl rfl⟩
  | made hresult hlookup =>
      cases hlog
      rw [hresult] at hmade
      exact ⟨_, holds_made hmade hlookup rfl rfl rfl⟩

theorem holds_attach_of_readText {prior : String} (hnumbered : before.files.Numbered)
    (h : attach directory key before = (.ok log, after))
    (hread : after.files.readText after.files.directory log.path = .ok prior) :
    log.Holds (Bytes.ofText prior) after.files := by
  obtain ⟨content, hholds⟩ := holds_attach hnumbered h
  rw [Files.readText, hholds.read_eq] at hread
  dsimp only at hread
  split at hread
  · next text htext =>
    cases hread
    exact Bytes.eq_ofText_of_text? htext ▸ hholds
  · cases hread

end ExecuteLog

end Assay
