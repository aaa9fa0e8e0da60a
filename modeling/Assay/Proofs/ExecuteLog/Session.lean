import Assay.Proofs.ExecuteLog.Attach
import Assay.Proofs.Files.Lasting
import Assay.Proofs.Record.RoundTrip

/-!
# Logs side by side

Any number of logs are attached, told and closed in any order, some of them in the same directory and some of them
under the same key. Which file a line goes to is settled by the paths alone, and the same paths lead to the same
files all the while: so each file is what it was before, followed by what was told to the logs that lead to it.
-/

namespace Assay

variable {ρ : Type}

namespace Path

theorem components_join {name : RawText} (h : Proper name) (directory : Path) :
    (directory.join ⟨name⟩).components = directory.components ++ [.name name] := by
  have hrelative := isAbsolute_of_legal h.legal
  have hname : Component.ofSegment name = .name name := by
    rw [Component.ofSegment, if_neg h.ne_here, if_neg h.ne_up]
  unfold components
  rw [isAbsolute_join directory hrelative, segments_join directory hrelative, segments_of_legal h.legal,
    List.map_append, List.map_singleton, hname]
  split
  · simp
  · generalize directory.segments.map Component.ofSegment = named
    cases named with
    | nil => rfl
    | cons first rest => cases first <;> simp

end Path

namespace ExecuteLog

/-- Whatever the key is, the log has a name of its own in the directory. -/
theorem proper_fileName (key : String) : Path.Proper (fileName key) := by
  have hlength : 10 ≤ (fileName key).toList.length := by
    simp [fileName, String.toList_append]
  have hshort {name : String} (hname : name.toList.length < 10) : fileName key ≠ name := by
    rintro rfl
    omega
  refine Path.proper_ofText_iff.mpr ⟨⟨hshort (by decide), ?_⟩, hshort (by decide), hshort (by decide)⟩
  simp only [fileName, String.toList_append, List.mem_append, String.toList_ofList, List.mem_map]
  rintro ((hbefore | ⟨char, -, hchar⟩) | hsuffix)
  · exact absurd hbefore (by decide)
  · split at hchar
    · cases hchar
    · next hsafe => exact hsafe (.inl hchar)
  · exact absurd hsuffix (by decide)

/-- What can be done with logs, each of them by the number it got when it was attached. -/
inductive Deed
  | attach (directory : Path) (key : String)
  | report (number : Nat) (submission : Submission) (outcome : Outcome)
  | close (number : Nat)

/-- A log, and what was asked for. -/
structure Attachment where
  directory : Path
  key : String
  log : ExecuteLog
deriving DecidableEq

/-- The logs that are in use, by their numbers, all that were ever attached, and what they were told. -/
structure Session (ρ : Type) where
  world : World ρ
  handles : List (Option ExecuteLog)
  attachments : List Attachment
  told : List (ExecuteLog × Record)

namespace Session

def start (world : World ρ) : Session ρ :=
  { world, handles := [], attachments := [], told := [] }

/-- A log that was refused keeps its number, and to a log that is not in use nothing can be told. -/
def perform (session : Session ρ) : Deed → Session ρ
  | .attach directory key =>
    match ExecuteLog.attach directory key session.world with
    | (.error _, world) => { session with world, handles := session.handles ++ [none] }
    | (.ok log, world) =>
      { session with
        world
        handles := session.handles ++ [some log]
        attachments := session.attachments ++ [⟨directory, key, log⟩] }
  | .report number submission outcome =>
    match session.handles[number]? with
    | some (some log) =>
      { session with
        world := (log.report submission outcome session.world).2
        told := session.told ++ [(log, .ofOutcome submission.label outcome)] }
    | _ => session
  | .close number => { session with handles := session.handles.set number none }

def run (world : World ρ) (deeds : List Deed) : Session ρ :=
  deeds.foldl perform (start world)

theorem run_concat (world : World ρ) (deeds : List Deed) (deed : Deed) :
    run world (deeds ++ [deed]) = (run world deeds).perform deed := by
  rw [run, List.foldl_append]
  rfl

end Session

/-- What was told to the logs that lead to a file, line by line. -/
def linesTo (files : Files) (told : List (ExecuteLog × Record)) (id : FileId) : Bytes :=
  Bytes.ofText (Record.linesOf
    ((told.filter fun entry => files.fileId? entry.1.path = some id).map Prod.snd))

/-- The lines that were printed. -/
def printed (events : List Event) : List String :=
  (events.filter fun event => event.topic = .outcome).map (·.message)

end ExecuteLog

/-- The node after these lines were added to each file. -/
def Node.appended (lines : FileId → Bytes) : Node → Node
  | .file id content executable => .file id (content ++ lines id) executable
  | node => node

theorem Node.appended_eq {lines : FileId → Bytes} {node : Node}
    (h : ∀ id, node.id? = some id → lines id = ByteArray.empty) : node.appended lines = node := by
  cases node with
  | file id content executable => rw [appended, h id rfl, ByteArray.append_empty]
  | _ => rfl

theorem Node.appended_appended (first second : FileId → Bytes) (node : Node) :
    (node.appended first).appended second = node.appended fun id => first id ++ second id := by
  cases node with
  | file id content executable => simp [appended, ByteArray.append_assoc]
  | _ => rfl

theorem Node.id?_appended (lines : FileId → Bytes) (node : Node) : (node.appended lines).id? = node.id? := by
  cases node <;> rfl

namespace Files

/-- The file with this name. -/
def fileAt? (files : Files) (location : Location) : Option FileId :=
  (files.node? location).bind Node.id?

theorem Numbered.lt_of_fileAt? {files : Files} (h : files.Numbered) {location : Location} {id : FileId}
    (hid : files.fileAt? location = some id) : id.number < files.nextFile := by
  obtain ⟨node, hnode, hid⟩ := Option.bind_eq_some_iff.mp hid
  cases node with
  | file other content executable =>
      cases hid
      exact h.below _ (mem_of_node?_file hnode).2 _ content executable rfl
  | _ => cases hid

/-- An append reaches the file everywhere it is, and nothing else. -/
theorem Numbered.node?_write {files : Files} (h : files.Numbered) {stream : StreamId} {id : FileId}
    {position : Nat} {content : Bytes}
    (hstream : files.streams[stream.number]? = some ⟨id, position, true⟩)
    (hcontent : files.content? id = some content) (bytes : Bytes) (location : Location) :
    (files.write stream bytes).node? location =
      (files.node? location).map (.appended fun other => if other = id then bytes else ByteArray.empty) := by
  have hnodes : (files.write stream bytes).node? location =
      (files.setContent id (content ++ bytes)).node? location := by
    rw [write_append hstream hcontent]
    rfl
  rw [hnodes, node?_setContent]
  rcases hnode : files.node? location with _ | _ | ⟨other, old, executable⟩ | target
  · rfl
  · rfl
  · have hold := h.content?_eq_some hnode
    by_cases hsame : other = id
    · subst hsame
      rw [hcontent] at hold
      simp [rewritten, Node.appended, Option.some.inj hold]
    · simp [rewritten, Node.appended, hsame, ByteArray.append_empty]
  · rfl

theorem Numbered.fileAt?_write {files : Files} (h : files.Numbered) {stream : StreamId} {id : FileId}
    {position : Nat} {content : Bytes}
    (hstream : files.streams[stream.number]? = some ⟨id, position, true⟩)
    (hcontent : files.content? id = some content) (bytes : Bytes) (location : Location) :
    (files.write stream bytes).fileAt? location = files.fileAt? location := by
  rw [fileAt?, h.node?_write hstream hcontent, fileAt?]
  cases files.node? location with
  | none => rfl
  | some node => exact Node.id?_appended _ node

theorem Numbered.write {files : Files} (h : files.Numbered) {stream : StreamId} {id : FileId}
    {position : Nat} {content : Bytes}
    (hstream : files.streams[stream.number]? = some ⟨id, position, true⟩)
    (hcontent : files.content? id = some content) (bytes : Bytes) :
    (files.write stream bytes).Numbered := by
  have hset := h.setContent id (content ++ bytes)
  rw [write_append hstream hcontent]
  exact ⟨hset.below, hset.same⟩

theorem enters_of_ensureDirectory {files made : Files} {path : Path}
    (h : files.ensureDirectory files.directory path = (.ok (), made)) : ∃ above, made.Enters path above := by
  have hdirectory : made.directory = files.directory := by
    have hgrown := grown_ensureDirectory files files.directory path
    rw [h] at hgrown
    exact hgrown.directory
  unfold Enters
  by_cases hempty : path.text = ""
  · exact ⟨made.directory, by rw [if_pos hempty]⟩
  · obtain ⟨above, hlookup⟩ := isDirectory_iff.mp (isDirectory_of_ensureDirectory hempty h)
    refine ⟨above, ?_⟩
    rw [if_neg hempty, hdirectory]
    exact findDirectory_eq_ok_iff.mpr hlookup

end Files

namespace ExecuteLog

/-- Nothing is told without a path that leads to a file, and where it leads it keeps leading. -/
theorem linesTo_lasting {files after : Files} (h : files.Lasting after) {told : List (ExecuteLog × Record)}
    (hled : ∀ entry ∈ told, ∃ id, files.fileId? entry.1.path = some id) :
    linesTo after told = linesTo files told := by
  funext id
  rw [linesTo, linesTo]
  congr 3
  refine List.filter_congr fun entry hentry => ?_
  obtain ⟨other, hother⟩ := hled entry hentry
  rw [hother, h.fileId? hother]

theorem linesTo_concat (files : Files) (told : List (ExecuteLog × Record)) {log : ExecuteLog} {id : FileId}
    (hled : files.fileId? log.path = some id) (record : Record) (other : FileId) :
    linesTo files (told ++ [(log, record)]) other = linesTo files told other ++
      (if other = id then Bytes.ofText (record.text ++ "\n") else ByteArray.empty) := by
  rw [linesTo, linesTo, List.filter_append, List.map_append]
  by_cases hsame : other = id
  · subst hsame
    simp [hled, Record.linesOf_append, Bytes.ofText_append]
  · have hother : ¬ id = other := fun heq => hsame heq.symm
    simp [hled, hsame, hother, ByteArray.append_empty]

theorem linesTo_eq_empty {files : Files} {told : List (ExecuteLog × Record)} {id : FileId}
    (h : ∀ entry ∈ told, files.fileId? entry.1.path ≠ some id) : linesTo files told id = ByteArray.empty := by
  have hnone : told.filter (fun entry => files.fileId? entry.1.path = some id) = [] :=
    List.filter_eq_nil_iff.mpr fun entry hentry => by simpa using h entry hentry
  rw [linesTo, hnone]
  rfl

/-- The log is a name in the directory that was asked for, and what it is told goes where its path leads. -/
structure Attachment.Open (attachment : Attachment) (files : Files) : Prop where
  path : attachment.log.path = attachment.directory.join ⟨fileName attachment.key⟩
  enters : ∃ above, files.Enters attachment.directory above
  stream : ∃ id position, files.streams[attachment.log.stream.number]? = some ⟨id, position, true⟩ ∧
    files.fileId? attachment.log.path = some id

theorem Attachment.Open.lasting {attachment : Attachment} {files after : Files} (h : attachment.Open files)
    (hlasting : files.Lasting after) : attachment.Open after where
  path := h.path
  enters := by
    obtain ⟨above, henters⟩ := h.enters
    exact ⟨above, hlasting.enters henters⟩
  stream := by
    obtain ⟨id, position, hstream, hid⟩ := h.stream
    obtain ⟨later, hafter⟩ := hlasting.streams _ _ hstream
    exact ⟨id, later, hafter, hlasting.fileId? hid⟩

theorem Attachment.Open.of_holds {attachment : Attachment} {files : Files} {content : Bytes}
    (hpath : attachment.log.path = attachment.directory.join ⟨fileName attachment.key⟩)
    (henters : ∃ above, files.Enters attachment.directory above)
    (hholds : attachment.log.Holds content files) : attachment.Open files where
  path := hpath
  enters := henters
  stream := by
    obtain ⟨⟨id, position, appends⟩, location, executable, hstream, rfl, hfind, -⟩ := hholds.kept
    exact ⟨id, position, hstream, Files.fileId?_eq_some_iff.mpr ⟨location, content, executable, hfind⟩⟩

/-- What may be new: a directory that was asked for or is above one that was, and the file of a log, in which there
is nothing but what its logs were told. -/
inductive Made (deeds : List Deed) (attachments : List Attachment) (files : Files) (lines : FileId → Bytes)
    (location : Location) : Node → Prop
  | directory {directory above : Path} {key : String} (hasked : .attach directory key ∈ deeds)
      (habove : Path.IsAbove above directory)
      (hfound : files.findDirectory files.directory above = .ok location) :
      Made deeds attachments files lines location .directory
  | log {attachment : Attachment} {id : FileId} {content : Bytes} {executable : Bool}
      (hattached : attachment ∈ attachments)
      (hfound : files.find files.directory attachment.log.path = .ok (location, .file id content executable))
      (hlines : content = lines id) : Made deeds attachments files lines location (.file id content executable)

theorem Made.more {deeds deeds' : List Deed} {attachments : List Attachment} {files : Files}
    {lines : FileId → Bytes} {location : Location} {node : Node}
    (h : Made deeds attachments files lines location node) (hdeeds : deeds ⊆ deeds') :
    Made deeds' attachments files lines location node := by
  cases h with
  | directory hasked habove hfound => exact .directory (hdeeds hasked) habove hfound
  | log hattached hfound hlines => exact .log hattached hfound hlines

/-- How the files stand to those that a session started with. -/
structure Extended (start : Files) (deeds : List Deed) (attachments : List Attachment)
    (told : List (ExecuteLog × Record)) (files : Files) : Prop where
  numbered : files.Numbered
  attached : ∀ attachment ∈ attachments, attachment.Open files
  heard : ∀ entry ∈ told, ∃ attachment ∈ attachments, attachment.log = entry.1
  old : ∀ location node, start.node? location = some node →
    files.node? location = some (node.appended (linesTo files told))
  new : ∀ location node, start.node? location = none → files.node? location = some node →
    Made deeds attachments files (linesTo files told) location node
  sole : ∀ location other id, files.fileAt? location = some id → files.fileAt? other = some id →
    location = other ∨ start.fileAt? location = some id ∧ start.fileAt? other = some id

namespace Extended

variable {start files after : Files} {deeds deeds' : List Deed} {attachments attachments' : List Attachment}
  {told : List (ExecuteLog × Record)}

theorem initial (h : start.Numbered) : Extended start [] [] [] start where
  numbered := h
  attached := nofun
  heard := nofun
  old location node hnode := by
    have hnone : node.appended (linesTo start []) = node := Node.appended_eq fun id _ => rfl
    rw [hnode, hnone]
  new location node hfree hnode := by
    rw [hfree] at hnode
    cases hnode
  sole _ _ _ hlocation hother := .inr ⟨hlocation, hother⟩

theorem led (h : Extended start deeds attachments told files) :
    ∀ entry ∈ told, ∃ id, files.fileId? entry.1.path = some id := by
  intro entry hentry
  obtain ⟨attachment, hattached, hlog⟩ := h.heard entry hentry
  obtain ⟨id, -, -, hid⟩ := (h.attached attachment hattached).stream
  exact ⟨id, hlog ▸ hid⟩

/-- It is enough to look at what is new, where everything else stays as it is. -/
theorem grow (h : Extended start deeds attachments told files) (hlasting : files.Lasting after)
    (hnumbered : after.Numbered) (hdeeds : deeds ⊆ deeds') (hattachments : attachments ⊆ attachments')
    (hopen : ∀ attachment ∈ attachments', attachment ∈ attachments ∨ attachment.Open after)
    (hkept : ∀ location node, files.node? location = some node → after.node? location = some node)
    (hnew : ∀ location node, files.node? location = none → after.node? location = some node →
      Made deeds' attachments' after (linesTo files told) location node)
    (hfresh : ∀ location other id, files.node? location = none → after.fileAt? location = some id →
      after.fileAt? other = some id → location = other) :
    Extended start deeds' attachments' told after where
  numbered := hnumbered
  attached := by
    intro attachment hattached
    rcases hopen attachment hattached with hold | hnow
    · exact (h.attached attachment hold).lasting hlasting
    · exact hnow
  heard := by
    intro entry hentry
    obtain ⟨attachment, hattached, hlog⟩ := h.heard entry hentry
    exact ⟨attachment, hattachments hattached, hlog⟩
  old := by
    intro location node hnode
    rw [linesTo_lasting hlasting h.led]
    exact hkept location _ (h.old location node hnode)
  new := by
    intro location node hfree hnode
    rw [linesTo_lasting hlasting h.led]
    cases hbefore : files.node? location with
    | none => exact hnew location node hbefore hnode
    | some before =>
        obtain rfl : before = node := Option.some.inj ((hkept location before hbefore).symm.trans hnode)
        cases h.new location before hfree hbefore with
        | directory hasked habove hfound =>
            exact .directory (hdeeds hasked) habove (hlasting.found _ _ hfound)
        | log hattached hfound hlines =>
            obtain ⟨content, hafter⟩ := hlasting.file _ _ _ _ _ hfound
            have hthere := (Files.backs_of_lookup (Files.find_eq_ok_iff.mp hafter)).1
            cases hnode.symm.trans hthere
            exact .log (hattachments hattached) hafter hlines
  sole := by
    intro location other id hlocation hother
    have hsame {place : Location} {node : Node} (hnode : files.node? place = some node)
        (hid : after.fileAt? place = some id) : files.fileAt? place = some id := by
      rw [Files.fileAt?, hkept place node hnode] at hid
      rwa [Files.fileAt?, hnode]
    rcases hbefore : files.node? location with _ | node
    · exact .inl (hfresh location other id hbefore hlocation hother)
    cases hbefore' : files.node? other with
    | none => exact .inl (hfresh other location id hbefore' hother hlocation).symm
    | some node' => exact h.sole location other id (hsame hbefore hlocation) (hsame hbefore' hother)

theorem ensureDirectory (h : Extended start deeds attachments told files) (directory : Path) (key : String) :
    Extended start (deeds ++ [.attach directory key]) attachments told
      (files.ensureDirectory files.directory directory).2 := by
  have hgrown := Files.grown_ensureDirectory files files.directory directory
  refine h.grow (.of_grown hgrown) (h.numbered.ensureDirectory _ _) (List.subset_append_left _ _)
    (List.Subset.refl _) (fun _ => .inl) (fun location node hnode => ?_) (fun location node hfree hnode => ?_)
    fun location other id hfree hid _ => ?_
  · rcases hgrown.node?_eq location with hsame | ⟨hfree, -⟩
    · rw [hsame, hnode]
    · rw [hfree] at hnode
      cases hnode
  · obtain ⟨above, habove, hfound⟩ :=
      Files.leads_of_ensureDirectory hfree fun hnone => by rw [hnone] at hnode; cases hnode
    rcases hgrown.node?_eq location with hsame | ⟨-, hmade⟩
    · rw [hsame, hfree] at hnode
      cases hnode
    · cases hmade.symm.trans hnode
      exact .directory (List.mem_append_right _ (.head _)) habove (hgrown.directory.symm ▸ hfound)
  · rcases hgrown.node?_eq location with hsame | ⟨-, hmade⟩
    · rw [Files.fileAt?, hsame, hfree] at hid
      cases hid
    · rw [Files.fileAt?, hmade] at hid
      cases hid

theorem opens (h : Extended start deeds attachments told files) {attachment : Attachment} {content : Bytes}
    (hpath : attachment.log.path = attachment.directory.join ⟨fileName attachment.key⟩)
    (henters : ∃ above, files.Enters attachment.directory above) (hholds : attachment.log.Holds content after)
    (hlasting : files.Lasting after) (hnumbered : after.Numbered)
    (hkept : ∀ location node, files.node? location = some node → after.node? location = some node)
    (hnew : ∀ location node, files.node? location = none → after.node? location = some node →
      Made deeds (attachments ++ [attachment]) after (linesTo files told) location node)
    (hfresh : ∀ location other id, files.node? location = none → after.fileAt? location = some id →
      after.fileAt? other = some id → location = other) :
    Extended start deeds (attachments ++ [attachment]) told after := by
  refine h.grow hlasting hnumbered (List.Subset.refl _) (List.subset_append_left _ _) (fun other hother => ?_)
    hkept hnew hfresh
  rcases List.mem_append.mp hother with hold | hnow
  · exact .inl hold
  · obtain ⟨above, habove⟩ := henters
    rw [List.mem_singleton.mp hnow]
    exact .inr (.of_holds hpath ⟨above, hlasting.enters habove⟩ hholds)

/-- Nobody was led to a file that is not made yet. -/
theorem linesTo_next (h : Extended start deeds attachments told files) :
    linesTo files told ⟨files.nextFile⟩ = ByteArray.empty := by
  refine linesTo_eq_empty fun entry _ hid => ?_
  obtain ⟨location, content, executable, hfind⟩ := Files.fileId?_eq_some_iff.mp hid
  have hnode := (Files.backs_of_lookup (Files.find_eq_ok_iff.mp hfind)).1
  exact Nat.lt_irrefl _ (h.numbered.lt_of_fileAt? (by rw [Files.fileAt?, hnode]; rfl))

/-- The new file of a log is empty, and nobody was led to it before. -/
theorem makes (h : Extended start deeds attachments told files) {directory : Path} {key : String}
    {location : Location} (henters : ∃ above, files.Enters directory above)
    (hlookup : files.lookup files.directory (directory.join ⟨fileName key⟩) true = .ok (.vacant location)) :
    Extended start deeds
      (attachments ++ [⟨directory, key, ⟨directory.join ⟨fileName key⟩, ⟨files.streams.length⟩⟩⟩]) told
      { files.put location (.file ⟨files.nextFile⟩ ByteArray.empty false) with
        streams := files.streams ++ [⟨⟨files.nextFile⟩, 0, true⟩]
        nextFile := files.nextFile + 1 } := by
  have hnext := h.linesTo_next
  have hnumbered := h.numbered.put_file location ByteArray.empty false
    (files.streams ++ [⟨⟨files.nextFile⟩, 0, true⟩])
  obtain ⟨hne, hfree, -⟩ := Files.backs_of_lookup hlookup
  let made := files.put location (.file ⟨files.nextFile⟩ ByteArray.empty false)
  have hput (other : Location) : made.node? other =
      if location = other then some (.file ⟨files.nextFile⟩ ByteArray.empty false) else files.node? other :=
    Files.node?_put hne _ other
  have hat (other : Location) := congrArg (·.bind Node.id?) (hput other)
  refine h.opens rfl henters (holds_made h.numbered hlookup rfl rfl rfl)
    (.of_put hne hfree rfl rfl (List.prefix_append _ _)) hnumbered
    (fun other node hnode => (hput other).trans ?_) (fun other node hfree' hnode => ?_)
    fun place other id hfree' hid hid' => ?_
  · rw [if_neg, hnode]
    rintro rfl
    cases hfree.symm.trans hnode
  · replace hnode := (hput other).symm.trans hnode
    split at hnode
    · next hsame =>
      cases hnode
      rw [← hsame]
      exact .log (List.mem_append_right _ (.head _)) (find_made hlookup rfl) hnext.symm
    · cases hfree'.symm.trans hnode
  · replace hid := (hat place).symm.trans hid
    replace hid' := (hat other).symm.trans hid'
    split at hid
    · next hsame =>
      cases hid
      split at hid'
      · next hsame' => exact hsame.symm.trans hsame'
      · exact absurd (h.numbered.lt_of_fileAt? hid') (Nat.lt_irrefl _)
    · cases (congrArg (·.bind Node.id?) hfree').symm.trans hid

/-- The file of a log that is there already is left as it is. -/
theorem reopens (h : Extended start deeds attachments told files) {directory : Path} {key : String}
    {location : Location} {id : FileId} {content : Bytes} {executable : Bool}
    (henters : ∃ above, files.Enters directory above)
    (hlookup : files.lookup files.directory (directory.join ⟨fileName key⟩) true =
      .ok (.occupied location (.file id content executable))) :
    Extended start deeds
      (attachments ++ [⟨directory, key, ⟨directory.join ⟨fileName key⟩, ⟨files.streams.length⟩⟩⟩]) told
      { files with streams := files.streams ++ [⟨id, 0, true⟩] } := by
  refine h.opens rfl henters (holds_opened h.numbered hlookup rfl rfl rfl)
    (.of_nodes rfl rfl (List.prefix_append _ _)) ⟨h.numbered.below, h.numbered.same⟩
    (fun _ _ hnode => hnode) (fun _ _ hfree hnode => ?_) fun _ _ _ hfree hid _ => ?_
  · cases hfree.symm.trans hnode
  · cases (congrArg (·.bind Node.id?) hfree).symm.trans hid

theorem attach {world : World ρ} (h : Extended start deeds attachments told world.files) (directory : Path)
    (key : String) :
    Extended start (deeds ++ [.attach directory key])
      (attachments ++ (ExecuteLog.attach directory key world).1.toOption.toList.map (⟨directory, key, ·⟩))
      told (ExecuteLog.attach directory key world).2.files := by
  have hensured := h.ensureDirectory directory key
  have hattached := ExecuteLog.attached directory key world
  generalize (ExecuteLog.attach directory key world).1.toOption = opened,
    (ExecuteLog.attach directory key world).2.files = after at hattached
  cases hattached with
  | refused => simpa using hensured
  | kept hmade hlookup =>
      rw [hmade] at hensured
      exact hensured.reopens (Files.enters_of_ensureDirectory hmade) hlookup
  | made hmade hlookup =>
      rw [hmade] at hensured
      exact hensured.makes (Files.enters_of_ensureDirectory hmade) hlookup

/-- Nobody makes a link. -/
theorem link_of_link (h : Extended start deeds attachments told files) {location : Location} {target : Path}
    (hlink : files.node? location = some (.link target)) : start.node? location = some (.link target) := by
  cases hstart : start.node? location with
  | none => cases h.new location _ hstart hlink
  | some before =>
      have hsame := hlink.symm.trans (h.old location before hstart)
      cases before with
      | link other => exact hsame.symm
      | _ => cases hsame

theorem more (h : Extended start deeds attachments told files) (hdeeds : deeds ⊆ deeds') :
    Extended start deeds' attachments told files :=
  { h with new := fun location node hfree hnode => (h.new location node hfree hnode).more hdeeds }

theorem linesTo_told (h : Extended start deeds attachments told files) (hlasting : files.Lasting after)
    {log : ExecuteLog} {id : FileId} (hid : files.fileId? log.path = some id) (record : Record) :
    linesTo after (told ++ [(log, record)]) = fun other => linesTo files told other ++
      (if other = id then Bytes.ofText (record.text ++ "\n") else ByteArray.empty) := by
  rw [linesTo_lasting hlasting]
  · exact funext (linesTo_concat files told hid record)
  · intro entry hentry
    rcases List.mem_append.mp hentry with hold | hnow
    · exact h.led entry hold
    · rw [List.mem_singleton.mp hnow]
      exact ⟨id, hid⟩

/-- A line goes to the file that the path of its log leads to, and to no other. -/
theorem report {world : World ρ} (h : Extended start deeds attachments told world.files) {attachment : Attachment}
    (hattached : attachment ∈ attachments) (submission : Submission) (outcome : Outcome) :
    Extended start deeds attachments (told ++ [(attachment.log, .ofOutcome submission.label outcome)])
      (attachment.log.report submission outcome world).2.files := by
  obtain ⟨id, position, hstream, hid⟩ := (h.attached attachment hattached).stream
  obtain ⟨location, content, executable, hfind⟩ := Files.fileId?_eq_some_iff.mp hid
  have hcontent := h.numbered.content?_eq_some (Files.backs_of_lookup (Files.find_eq_ok_iff.mp hfind)).1
  generalize hrecord : Record.ofOutcome submission.label outcome = record
  have hwritten : (attachment.log.report submission outcome world).2.files =
      world.files.write attachment.log.stream (Bytes.ofText (record.text ++ "\n")) := by
    rw [← hrecord]
    rfl
  rw [hwritten]
  have hlasting : world.files.Lasting
      (world.files.write attachment.log.stream (Bytes.ofText (record.text ++ "\n"))) :=
    .of_append hstream hcontent
  have hlines := h.linesTo_told hlasting hid record
  have hnode (other : Location) := h.numbered.node?_write hstream hcontent
    (Bytes.ofText (record.text ++ "\n")) other
  refine ⟨h.numbered.write hstream hcontent _, fun other hother => (h.attached other hother).lasting hlasting,
    fun entry hentry => ?_, fun other node hstart => ?_, fun other node hfree hafter => ?_,
    fun place other number hplace hother => ?_⟩
  · rcases List.mem_append.mp hentry with hold | hnow
    · exact h.heard entry hold
    · exact ⟨attachment, hattached, by rw [List.mem_singleton.mp hnow]⟩
  · rw [hnode, h.old other node hstart, hlines, Option.map_some, Node.appended_appended]
  · rw [hlines]
    obtain ⟨before, hbefore, rfl⟩ := Option.map_eq_some_iff.mp ((hnode other).symm.trans hafter)
    cases h.new other before hfree hbefore with
    | directory hasked habove hfound => exact .directory hasked habove (hlasting.found _ _ hfound)
    | log hmember hfound hold =>
        obtain ⟨found, hthere⟩ := hlasting.file _ _ _ _ _ hfound
        have hsame := (Files.backs_of_lookup (Files.find_eq_ok_iff.mp hthere)).1
        cases hafter.symm.trans hsame
        exact .log hmember hthere (by rw [hold])
  · have hat (other : Location) := h.numbered.fileAt?_write hstream hcontent
      (Bytes.ofText (record.text ++ "\n")) other
    exact h.sole place other number ((hat place).symm.trans hplace) ((hat other).symm.trans hother)

end Extended

theorem printed_attach (directory : Path) (key : String) (world : World ρ) :
    printed (attach directory key world).2.events = printed world.events := by
  unfold attach
  rcases world.files.ensureDirectory world.files.directory directory with ⟨fault | _, made⟩
  · rfl
  dsimp only
  rcases made.openStream made.directory (directory.join ⟨fileName key⟩) .append with fault | ⟨stream, opened⟩
  · rfl
  · simp [printed, World.debug, World.note]

namespace Session

/-- What is in use was attached, and what was told is in the files and on the screen. -/
structure Sound (world : World ρ) (deeds : List Deed) (session : Session ρ) : Prop where
  kept : Extended world.files deeds session.attachments session.told session.world.files
  handles : ∀ log, some log ∈ session.handles → ∃ attachment ∈ session.attachments, attachment.log = log
  printed : printed session.world.events = printed world.events ++ session.told.map (·.2.text)

theorem Sound.perform {world : World ρ} {deeds : List Deed} {session : Session ρ}
    (h : session.Sound world deeds) (deed : Deed) : (session.perform deed).Sound world (deeds ++ [deed]) := by
  cases deed with
  | attach directory key =>
      have hkept := h.kept.attach directory key
      have hprinted := (printed_attach directory key session.world).trans h.printed
      rcases hresult : ExecuteLog.attach directory key session.world with ⟨failure | log, after⟩ <;>
        rw [hresult] at hkept hprinted <;> simp only [Session.perform, hresult]
      · refine ⟨by simpa [Except.toOption] using hkept, fun log hlog => ?_, hprinted⟩
        exact h.handles log (by simpa using hlog)
      · refine ⟨hkept, fun other hother => ?_, hprinted⟩
        rcases List.mem_append.mp hother with hold | hnow
        · obtain ⟨attachment, hattached, hlog⟩ := h.handles other hold
          exact ⟨attachment, List.mem_append_left _ hattached, hlog⟩
        · cases List.mem_singleton.mp hnow
          exact ⟨_, List.mem_append_right _ (.head _), rfl⟩
  | report number submission outcome =>
      have hmore := h.kept.more (List.subset_append_left deeds [.report number submission outcome])
      rcases hhandle : session.handles[number]? with _ | _ | log <;> simp only [Session.perform, hhandle]
      · exact ⟨hmore, h.handles, h.printed⟩
      · exact ⟨hmore, h.handles, h.printed⟩
      · obtain ⟨attachment, hattached, rfl⟩ := h.handles log (List.mem_of_getElem? hhandle)
        refine ⟨hmore.report hattached submission outcome, h.handles, ?_⟩
        rw [List.map_append, ← List.append_assoc, ← h.printed]
        simp [ExecuteLog.printed, report, World.note, event]
  | close number =>
      refine ⟨h.kept.more (List.subset_append_left _ _), fun log hlog => ?_, h.printed⟩
      rcases List.mem_or_eq_of_mem_set hlog with hold | hnone
      · exact h.handles log hold
      · cases hnone

theorem sound_run {world : World ρ} (h : world.files.Numbered) (deeds : List Deed) :
    (run world deeds).Sound world deeds := by
  induction deeds using List.reverseRecOn with
  | nil => exact ⟨.initial h, nofun, (List.append_nil _).symm⟩
  | append_singleton deeds deed ih =>
      rw [run_concat]
      exact ih.perform deed

/-- What a session comes to. Each log is a name in the directory that was asked for, and unless a link had that
name, its file is there. It ends with what was told to the logs that lead to it, in that order, and begins with what
there was before. What else there was is as it was, and nothing else is new but directories that were asked for. -/
structure AppendOnly (world : World ρ) (deeds : List Deed) (session : Session ρ) : Prop where
  child : ∀ attachment ∈ session.attachments,
    attachment.log.path = attachment.directory.join ⟨fileName attachment.key⟩ ∧
      attachment.log.path.components = attachment.directory.components ++ [.name (fileName attachment.key)]
  content : ∀ attachment ∈ session.attachments, ∃ above location id prior executable,
    session.world.files.Enters attachment.directory above ∧
      ((∀ target, world.files.node? (above ++ [(fileName attachment.key : RawText)]) ≠ some (.link target)) →
        location = above ++ [(fileName attachment.key : RawText)]) ∧
      session.world.files.find session.world.files.directory attachment.log.path =
        .ok (location, .file id (prior ++ linesTo session.world.files session.told id) executable) ∧
      (world.files.node? location = some (.file id prior executable) ∨
        world.files.node? location = none ∧ prior = ByteArray.empty)
  kept : ∀ location node, world.files.node? location = some node →
    session.world.files.node? location =
      some (node.appended (linesTo session.world.files session.told))
  untold : ∀ id, (∀ attachment ∈ session.attachments,
      session.world.files.fileId? attachment.log.path ≠ some id) →
    linesTo session.world.files session.told id = ByteArray.empty
  made : ∀ location node, world.files.node? location = none →
    session.world.files.node? location = some node →
      Made deeds session.attachments session.world.files (linesTo session.world.files session.told)
        location node
  printed : ExecuteLog.printed session.world.events =
    ExecuteLog.printed world.events ++ session.told.map (·.2.text)

/-- However the logs are attached, told and closed, under whatever keys, they are only ever added to. -/
theorem run_appendOnly {world : World ρ} (hnumbered : world.files.Numbered) (deeds : List Deed) :
    (run world deeds).AppendOnly world deeds := by
  have hsound := sound_run hnumbered deeds
  generalize run world deeds = session at hsound
  have hkept := hsound.kept
  refine ⟨fun attachment hattached => ?_, fun attachment hattached => ?_, hkept.old, fun id hnone => ?_,
    hkept.new, hsound.printed⟩
  · have hpath := (hkept.attached attachment hattached).path
    refine ⟨hpath, ?_⟩
    rw [hpath]
    exact Path.components_join (proper_fileName _) _
  · obtain ⟨hpath, ⟨above, henters⟩, id, _, -, hid⟩ := hkept.attached attachment hattached
    obtain ⟨location, content, executable, hfind⟩ := Files.fileId?_eq_some_iff.mp hid
    obtain ⟨found, hfound, hplace⟩ :=
      Files.child_of_find_join (proper_fileName _) henters (hpath ▸ hfind)
    have hnode := (Files.backs_of_lookup (Files.find_eq_ok_iff.mp hfind)).1
    have hprior : ∃ prior, content = prior ++ linesTo session.world.files session.told id ∧
        (world.files.node? location = some (.file id prior executable) ∨
          world.files.node? location = none ∧ prior = ByteArray.empty) := by
      cases hstart : world.files.node? location with
      | none =>
          cases hkept.new location _ hstart hnode with
          | log _ _ hlines => exact ⟨ByteArray.empty, by rw [hlines, ByteArray.empty_append], .inr ⟨rfl, rfl⟩⟩
      | some before =>
          have hsame := hnode.symm.trans (hkept.old location before hstart)
          cases before with
          | file other prior executable' =>
              cases hsame
              exact ⟨prior, rfl, .inl rfl⟩
          | _ => cases hsame
    obtain ⟨prior, rfl, hbefore⟩ := hprior
    refine ⟨above, location, id, prior, executable, henters, fun hplain => hplace ?_, hfind, hbefore⟩
    rintro target rfl
    exact hplain target (hkept.link_of_link hfound)
  · refine linesTo_eq_empty fun entry hentry => ?_
    obtain ⟨attachment, hattached, hlog⟩ := hkept.heard entry hentry
    exact hlog ▸ hnone attachment hattached

/-- There is a log from before, and something else. -/
def deskStart : World Unit :=
  .start
    { nodes := ⟨[(["out"], .directory), (["out", "execute_log_a_b.txt"], .file ⟨0⟩ (Bytes.ofText "old\n") false),
        (["notes"], .file ⟨1⟩ (Bytes.ofText "mine") false)]⟩
      streams := []
      nextFile := 2
      directory := [] } ()

/-- Two keys that come to the same name and one that is all dots, in turns. -/
def deskDeeds : List Deed :=
  let first : Submission := .ofRoot "a" ⟨"/work/a"⟩
  let second : Submission := .ofRoot "b" ⟨"/work/b"⟩
  [.attach ⟨"/out"⟩ "a/b", .attach ⟨"/out/new"⟩ "..", .attach ⟨"out"⟩ "a\\b",
    .report 0 first .success, .report 2 second (.timeout none), .report 1 second .success,
    .close 0, .report 0 second .success, .attach ⟨"/out"⟩ "a/b", .report 3 first (.timeout none)]

theorem numbered_desk : deskStart.files.Numbered := by
  constructor
  · intro entry hentry id content executable hfile
    simp only [deskStart, World.start, List.mem_cons, List.not_mem_nil, or_false] at hentry
    rcases hentry with rfl | rfl | rfl <;> cases hfile <;> decide
  · intro entry hentry other hother id content executable content' executable' hfile hfile'
    simp only [deskStart, World.start, List.mem_cons, List.not_mem_nil, or_false] at hentry hother
    rcases hentry with rfl | rfl | rfl <;> cases hfile <;>
      rcases hother with rfl | rfl | rfl <;> cases hfile' <;> rfl

theorem run_appendOnly_desk :
    deskStart.files.Numbered ∧ (run deskStart deskDeeds).AppendOnly deskStart deskDeeds ∧
      (run deskStart deskDeeds).attachments.length = 4 ∧
      (run deskStart deskDeeds).world.files.readText [] ⟨"/out/execute_log_a_b.txt"⟩ =
        .ok "old\nSuccess: [a]\nTimeout: [b]\nTimeout: [a]\n" ∧
      (run deskStart deskDeeds).world.files.readText [] ⟨"/out/new/execute_log_...txt"⟩ =
        .ok "Success: [b]\n" := by
  refine ⟨numbered_desk, run_appendOnly numbered_desk deskDeeds, ?_, ?_, ?_⟩
  all_goals decide

end Session

end ExecuteLog

end Assay
