import Assay.Config
import Assay.Proofs.ExecuteLog.Session
import Mathlib.Data.List.Forall2

/-!
# Which runs share a log

A log is named after its key, and the separators in it are replaced by another character that a key may have just as
well. So two keys come to one log exactly if they differ in nothing but these characters, however often the log is
attached and whatever else is done in between.
-/

namespace Assay

variable {ρ : Type}

namespace Path

theorem join_inj {first second : RawText} (hfirst : isAbsolute ⟨first⟩ = false)
    (hsecond : isAbsolute ⟨second⟩ = false) (directory : Path) :
    directory.join ⟨first⟩ = directory.join ⟨second⟩ ↔ first = second := by
  unfold join
  simp only [hfirst, hsecond, Bool.false_eq_true, if_false]
  split <;> simp [RawText.ext_bytes_iff]

end Path

namespace ExecuteLog

/-- The keys have the same characters, except that any separator and the low line are as good as each other. -/
def Alike (first second : String) : Prop :=
  List.Forall₂ (fun left right => left = right ∨ left ∈ ['/', '\\', '_'] ∧ right ∈ ['/', '\\', '_'])
    first.toList second.toList

instance (first second : String) : Decidable (Alike first second) :=
  inferInstanceAs (Decidable (List.Forall₂ _ _ _))

theorem replaced_eq_iff (left right : Char) :
    (if left = '/' ∨ left = '\\' then '_' else left) = (if right = '/' ∨ right = '\\' then '_' else right) ↔
      left = right ∨ left ∈ ['/', '\\', '_'] ∧ right ∈ ['/', '\\', '_'] := by
  split <;> split <;> grind

theorem fileName_eq_iff {first second : String} : fileName first = fileName second ↔ Alike first second := by
  unfold fileName
  simp only [String.append_left_inj, String.append_right_inj, String.ofList_inj]
  rw [← List.forall₂_eq_eq_eq, List.forall₂_map_left_iff, List.forall₂_map_right_iff, Alike]
  simp only [replaced_eq_iff]

theorem join_fileName_eq_iff (directory : Path) {first second : String} :
    directory.join ⟨fileName first⟩ = directory.join ⟨fileName second⟩ ↔ Alike first second := by
  rw [Path.join_inj (Path.isAbsolute_of_legal (proper_fileName first).legal)
    (Path.isAbsolute_of_legal (proper_fileName second).legal), RawText.ofText_inj, fileName_eq_iff]

/-- No log is a link, and no file has two names. -/
structure Unlinked (files : Files) : Prop where
  plain : ∀ location key target, files.node? (location ++ [(fileName key : RawText)]) ≠ some (.link target)
  sole : ∀ location other id, files.fileAt? location = some id → files.fileAt? other = some id →
    location = other

namespace Session

/-- The log is the file with its name in the directory that was asked for. -/
theorem Sound.fileAt?_of_attached {world : World ρ} {deeds : List Deed} {session : Session ρ}
    (h : session.Sound world deeds) (hunlinked : Unlinked world.files) {attachment : Attachment}
    (hattached : attachment ∈ session.attachments) {above : Location}
    (henters : session.world.files.Enters attachment.directory above) :
    session.world.files.fileId? attachment.log.path =
      session.world.files.fileAt? (above ++ [(fileName attachment.key : RawText)]) := by
  obtain ⟨hpath, -, id, _, -, hid⟩ := h.kept.attached attachment hattached
  obtain ⟨location, content, executable, hfind⟩ := Files.fileId?_eq_some_iff.mp hid
  obtain ⟨found, hfound, hplace⟩ := Files.child_of_find_join (proper_fileName _) henters (hpath ▸ hfind)
  obtain rfl := hplace fun target hlink => hunlinked.plain _ _ target (h.kept.link_of_link (hlink ▸ hfound))
  have hnode := (Files.backs_of_lookup (Files.find_eq_ok_iff.mp hfind)).1
  rw [hid, Files.fileAt?, hnode]
  rfl

/-- Two logs in one directory are one file exactly if their keys are alike. -/
theorem Sound.fileId?_eq_iff {world : World ρ} {deeds : List Deed} {session : Session ρ}
    (h : session.Sound world deeds) (hunlinked : Unlinked world.files) {first second : Attachment}
    (hfirst : first ∈ session.attachments) (hsecond : second ∈ session.attachments)
    (hdirectory : first.directory = second.directory) :
    session.world.files.fileId? first.log.path = session.world.files.fileId? second.log.path ↔
      Alike first.key second.key := by
  obtain ⟨hpath, ⟨above, henters⟩, id, _, -, hid⟩ := h.kept.attached first hfirst
  constructor
  · intro hsame
    have hat := h.fileAt?_of_attached hunlinked hfirst henters
    have hat' := h.fileAt?_of_attached hunlinked hsecond (hdirectory ▸ henters)
    rw [← hsame, hid] at hat'
    rw [hid] at hat
    have hlocation : above ++ [(fileName first.key : RawText)] = above ++ [(fileName second.key : RawText)] := by
      rcases h.kept.sole _ _ id hat.symm hat'.symm with heq | ⟨hstart, hstart'⟩
      · exact heq
      · exact hunlinked.sole _ _ id hstart hstart'
    exact fileName_eq_iff.mp (RawText.ofText_inj.mp (List.singleton_inj.mp (List.append_cancel_left hlocation)))
  · intro halike
    rw [hpath, (h.kept.attached second hsecond).path, ← hdirectory,
      (join_fileName_eq_iff first.directory).mpr halike]

end Session

/-- Two runs have one log exactly if the names they give it are alike, and then each line of the one is in the log of
the other, in whatever order they are started and whoever else writes logs. -/
theorem log_shared_iff (directory : Path) (first second : Config) :
    let path (config : Config) := directory.join ⟨fileName config.logName⟩
    (path first = path second ↔ Alike first.logName second.logName) ∧
      (∀ key key', first.logKey = some key → second.logKey = some key' →
        (path first = path second ↔ Alike key key')) ∧
      (first.logKey = none → second.logKey = none →
        (path first = path second ↔
          Alike (((Path.mk first.build.target).fileName?.map RawText.lossy).getD first.build.target)
            (((Path.mk second.build.target).fileName?.map RawText.lossy).getD second.build.target))) ∧
      ∀ (world : World ρ) (deeds : List Deed), world.files.Numbered → Unlinked world.files →
        ∀ left ∈ (Session.run world deeds).attachments, ∀ right ∈ (Session.run world deeds).attachments,
          left.directory = directory → left.key = first.logName →
            right.directory = directory → right.key = second.logName →
              left.log.path = path first ∧ right.log.path = path second ∧
                ((Session.run world deeds).world.files.fileId? left.log.path =
                    (Session.run world deeds).world.files.fileId? right.log.path ↔
                  Alike first.logName second.logName) := by
  intro path
  have hshared : path first = path second ↔ Alike first.logName second.logName :=
    join_fileName_eq_iff directory
  refine ⟨hshared, fun key key' hkey hkey' => ?_, fun hkey hkey' => ?_, ?_⟩
  · rw [hshared, Config.logName, Config.logName, hkey, hkey', Option.getD_some, Option.getD_some]
  · rw [hshared, Config.logName, Config.logName, hkey, hkey', Option.getD_none, Option.getD_none]
  · intro world deeds hnumbered hunlinked left hleft right hright hdirectory hkey hdirectory' hkey'
    have hsound := Session.sound_run hnumbered deeds
    have hfile := hsound.fileId?_eq_iff hunlinked hleft hright (hdirectory.trans hdirectory'.symm)
    rw [hkey, hkey'] at hfile
    refine ⟨?_, ?_, hfile⟩
    · rw [(hsound.kept.attached left hleft).path, hdirectory, hkey]
    · rw [(hsound.kept.attached right hright).path, hdirectory', hkey']

def keyed (key : String) : Config :=
  { logKey := some key }

def building (target : String) : Config :=
  { build := { target } }

theorem unlinked_desk : Unlinked Session.deskStart.files := by
  have hentry {location : Location} {node : Node} (h : Session.deskStart.files.node? location = some node) :
      location = [] ∧ node = .directory ∨ (location, node) ∈ Session.deskStart.files.nodes.entries := by
    cases location with
    | nil => exact .inl ⟨rfl, (Option.some.inj h).symm⟩
    | cons name rest => exact .inr (Table.mem_of_find?_eq_some h)
  constructor
  · intro location key target hlink
    rcases hentry hlink with ⟨-, hnode⟩ | hmem
    · cases hnode
    · simp [Session.deskStart, World.start] at hmem
  · intro location other id hlocation hother
    obtain ⟨node, hnode, hid⟩ := Option.bind_eq_some_iff.mp hlocation
    obtain ⟨node', hnode', hid'⟩ := Option.bind_eq_some_iff.mp hother
    rcases hentry hnode with ⟨-, rfl⟩ | hmem
    · cases hid
    rcases hentry hnode' with ⟨-, rfl⟩ | hmem'
    · cases hid'
    simp only [Session.deskStart, World.start, List.mem_cons, List.not_mem_nil, or_false, Prod.mk.injEq] at hmem hmem'
    rcases hmem with ⟨rfl, rfl⟩ | ⟨rfl, rfl⟩ | ⟨rfl, rfl⟩ <;>
      rcases hmem' with ⟨rfl, rfl⟩ | ⟨rfl, rfl⟩ | ⟨rfl, rfl⟩ <;>
        first | rfl | cases hid <;> cases hid'

/-- Two of the three keys are alike. -/
def twinDeeds : List Deed :=
  [.attach ⟨"/out"⟩ "a/b", .attach ⟨"/out"⟩ "a\\b", .report 1 (.ofRoot "a" ⟨"/work/a"⟩) .success,
    .attach ⟨"/out"⟩ "ab"]

def twinAttachments : List Attachment :=
  [⟨⟨"/out"⟩, "a/b", ⟨⟨"/out/execute_log_a_b.txt"⟩, ⟨0⟩⟩⟩,
    ⟨⟨"/out"⟩, "a\\b", ⟨⟨"/out/execute_log_a_b.txt"⟩, ⟨1⟩⟩⟩,
    ⟨⟨"/out"⟩, "ab", ⟨⟨"/out/execute_log_ab.txt"⟩, ⟨2⟩⟩⟩]

theorem log_shared_iff_twin :
    (Session.run Session.deskStart twinDeeds).attachments = twinAttachments ∧
      ∀ first ∈ twinAttachments, ∀ second ∈ twinAttachments,
        ((Session.run Session.deskStart twinDeeds).world.files.fileId? first.log.path =
            (Session.run Session.deskStart twinDeeds).world.files.fileId? second.log.path ↔
          Alike first.key second.key) := by
  have hattachments : (Session.run Session.deskStart twinDeeds).attachments = twinAttachments := by
    decide
  have hdirectory : ∀ attachment ∈ twinAttachments, attachment.directory = ⟨"/out"⟩ := by decide
  refine ⟨hattachments, fun first hfirst second hsecond => ?_⟩
  have hshared := (log_shared_iff ⟨"/out"⟩ (keyed first.key) (keyed second.key)).2.2.2 Session.deskStart twinDeeds
    Session.numbered_desk unlinked_desk first (hattachments ▸ hfirst) second (hattachments ▸ hsecond)
    (hdirectory first hfirst) rfl (hdirectory second hsecond) rfl
  exact hshared.2.2

/-- Other keys, or other targets without keys, and one log all the same. -/
theorem log_shared_by_others :
    (¬ ∀ (directory : Path) (first second : Config),
      ((∃ key key', first.logKey = some key ∧ second.logKey = some key' ∧ key ≠ key') ∨
        (first.logKey = none ∧ second.logKey = none ∧ first.build.target ≠ second.build.target)) →
      directory.join ⟨fileName first.logName⟩ ≠ directory.join ⟨fileName second.logName⟩) ∧
    (∀ directory : Path,
      directory.join ⟨fileName (keyed "a/b").logName⟩ = directory.join ⟨fileName (keyed "a_b").logName⟩ ∧
        directory.join ⟨fileName (building "x/main").logName⟩ =
          directory.join ⟨fileName (building "y/main").logName⟩) ∧
    let session := Session.run (World.start (Files.bare ["out"]) ())
      [.attach ⟨"/out"⟩ (keyed "a/b").logName, .attach ⟨"/out"⟩ (keyed "a_b").logName,
        .report 0 (.ofRoot "a" ⟨"/work/a"⟩) .success]
    session.attachments.map (fun attachment =>
        (attachment.key, (session.world.files.readText [] attachment.log.path).toOption)) =
      [("a/b", some "Success: [a]\n"), ("a_b", some "Success: [a]\n")] := by
  have halike : Alike (keyed "a/b").logName (keyed "a_b").logName := by decide
  have hkeys (directory : Path) := (join_fileName_eq_iff directory).mpr halike
  refine ⟨fun hapart => ?_, fun directory => ⟨hkeys directory, ?_⟩, by decide⟩
  · exact hapart ⟨"/out"⟩ (keyed "a/b") (keyed "a_b") (.inl ⟨_, _, rfl, rfl, by decide⟩) (hkeys _)
  · have hnames : (building "x/main").logName = (building "y/main").logName := by decide
    rw [hnames]

end ExecuteLog

end Assay
