import Assay.Files.Lookup

/-!
# Operations on files

Every operation either succeeds with new files or is refused with a `Fault`. Making a directory with those
above it is the one that can change files and fail.
-/

namespace Assay

namespace Bytes

def ofText (text : String) : Bytes := text.toUTF8

def text? (bytes : Bytes) : Option String := String.fromUTF8? bytes

def zeros (count : Nat) : Bytes := ⟨(List.replicate count 0).toArray⟩

/-- `content` with `bytes` written over it from `position` on; a gap before `position` reads as zeros. -/
def overwrite (content : Bytes) (position : Nat) (bytes : Bytes) : Bytes :=
  if position = content.size then content ++ bytes
  else if content.size < position then content ++ zeros (position - content.size) ++ bytes
  else
    content.extract 0 position ++ bytes ++ content.extract (position + bytes.size) content.size

end Bytes

namespace Path

/-- The path without the separators at its end, except that the root stays. What is too long with them is
too long without them. -/
def dropTrailingSeparators (path : Path) : Path :=
  if Files.pathLimit ≤ path.text.size then path
  else
    match (path.text.bytes.reverse.dropWhile (· = separator)).reverse with
    | [] => if path.isAbsolute then ⟨"/"⟩ else path
    | bytes => ⟨⟨bytes⟩⟩

end Path

/-- How a file is opened for writing. -/
inductive OpenMode
  | truncate
  | append
deriving DecidableEq, Repr

namespace Files

def makeDirectory (files : Files) (base : Location) (path : Path) : Except Fault Files :=
  match files.lookup base path.dropTrailingSeparators false with
  | .ok (.vacant location) => .ok (files.put location .directory)
  | .ok (.occupied ..) => .error .alreadyExists
  | .error fault => .error fault

/-- A directory that is there already is as good as a new one. -/
def makeOrKeepDirectory (files : Files) (base : Location) (path : Path) :
    Except Fault Unit × Files :=
  match files.makeDirectory base path with
  | .ok files => (.ok (), files)
  | .error fault => (if files.isDirectory base path then .ok () else .error fault, files)

/-- Makes the directory at `path`; where its parent is missing, the parent is made first. The list holds
the components of the path, the last one first. -/
def ensureFrom (files : Files) (base : Location) (path : Path) :
    List Path.Component → Except Fault Unit × Files
  | [] | [_] => files.makeOrKeepDirectory base path
  | _ :: above =>
    match files.makeDirectory base path with
    | .error .notFound =>
      match ensureFrom files base (.ofComponents above.reverse) above with
      | (.ok (), files) => files.makeOrKeepDirectory base path
      | (.error fault, files) => (.error fault, files)
    | _ => files.makeOrKeepDirectory base path

/-- Makes the directory at `path` and the missing ones above it. It may have made some of those when it
fails. -/
def ensureDirectory (files : Files) (base : Location) (path : Path) : Except Fault Unit × Files :=
  if path.text.isEmpty then (.ok (), files)
  else files.ensureFrom base path path.components.reverse

/-- The names in the directory at `path`. -/
def list (files : Files) (base : Location) (path : Path) : Except Fault (List RawText) :=
  match files.openDirectory base path with
  | .ok location => .ok (files.names location)
  | .error fault => .error fault

/-- The names in the directory at `path` that lead to a file, links followed. -/
def listFiles (files : Files) (base : Location) (path : Path) : Except Fault (List RawText) :=
  match files.list base path with
  | .ok names => .ok (names.filter fun name => files.isFile base (path.join ⟨name⟩))
  | .error fault => .error fault

def read (files : Files) (base : Location) (path : Path) : Except Fault Bytes :=
  match files.find base path with
  | .ok (_, .file _ content _) => .ok content
  | .ok _ => .error .isADirectory
  | .error fault => .error fault

def readText (files : Files) (base : Location) (path : Path) : Except Fault String :=
  match files.read base path with
  | .ok bytes =>
    match Bytes.text? bytes with
    | some text => .ok text
    | none => .error .notText
  | .error fault => .error fault

def pushStream (files : Files) (stream : Stream) : StreamId × Files :=
  (⟨files.streams.length⟩, { files with streams := files.streams ++ [stream] })

/-- Opens the file at `path` for writing, and makes it where the name is free. -/
def openStream (files : Files) (base : Location) (path : Path) (mode : OpenMode) :
    Except Fault (StreamId × Files) :=
  match files.lookup base path.dropTrailingSeparators true with
  | .error fault => .error fault
  | .ok place =>
    if path.endsInSeparator then .error .isADirectory
    else
      match place with
      | .occupied location (.file id content executable) =>
        let kept := if mode = .truncate then ByteArray.empty else content
        .ok ((files.put location (.file id kept executable)).pushStream ⟨id, 0, mode = .append⟩)
      | .occupied .. => .error .isADirectory
      | .vacant location =>
        let id : FileId := ⟨files.nextFile⟩
        let made := { files.put location (.file id ByteArray.empty false) with
          nextFile := files.nextFile + 1 }
        .ok (made.pushStream ⟨id, 0, mode = .append⟩)

def content? (files : Files) (id : FileId) : Option Bytes :=
  files.nodes.entries.findSome? fun entry =>
    match entry.2 with
    | .file other content _ => if other = id then some content else none
    | _ => none

def setContent (files : Files) (id : FileId) (content : Bytes) : Files :=
  { files with
    nodes := files.nodes.mapValues fun node =>
      match node with
      | .file other old executable => .file other (if other = id then content else old) executable
      | node => node }

/-- Writes to an open file. What is written to a file that was removed is lost. -/
def write (files : Files) (id : StreamId) (bytes : Bytes) : Files :=
  match files.streams[id.number]? with
  | none => files
  | some stream =>
    let content := (files.content? stream.file).getD ByteArray.empty
    let position := if stream.appends then content.size else stream.position
    { files.setContent stream.file (content.overwrite position bytes) with
      streams := files.streams.set id.number { stream with position := position + bytes.size } }

/-- Replaces the content of the file at `path`, or makes it. -/
def writeFile (files : Files) (base : Location) (path : Path) (bytes : Bytes) : Except Fault Files :=
  match files.openStream base path .truncate with
  | .ok (stream, files) => .ok (files.write stream bytes)
  | .error fault => .error fault

def setExecutable (files : Files) (base : Location) (path : Path) (executable : Bool) :
    Except Fault Files :=
  match files.find base path with
  | .ok (location, .file id content _) => .ok (files.put location (.file id content executable))
  | .ok _ => .ok files
  | .error fault => .error fault

def makeLink (files : Files) (base : Location) (path target : Path) : Except Fault Files :=
  match files.lookup base path false with
  | .ok (.vacant location) => .ok (files.put location (.link target))
  | .ok (.occupied ..) => .error .alreadyExists
  | .error fault => .error fault

/-- Removes what is at `path`, a directory with all it holds. A link is removed, not followed. -/
def remove (files : Files) (base : Location) (path : Path) : Except Fault Files :=
  match files.lookup base path false with
  | .ok (.occupied location _) => .ok (files.erase location)
  | .ok (.vacant _) => .error .notFound
  | .error fault => .error fault

end Files

end Assay
