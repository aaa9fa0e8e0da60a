import Assay.Path
import Assay.Table

/-!
# Files

A file system is a map from locations to nodes, with the streams that are open. A file has an identity
beside its location: a stream goes on writing to the file it was opened on when that is moved, and into
nowhere when it is removed.
-/

namespace Assay

/-- Where something is, as the names that lead to it from the root, none of them a link. -/
abbrev Location := List RawText

abbrev Bytes := ByteArray

/-- Contents are equal where their bytes are. -/
instance instDecidableEqBytes : DecidableEq Bytes := fun left right =>
  if h : left.data = right.data then
    isTrue (by cases left; cases right; cases h; rfl)
  else isFalse fun same => h (congrArg ByteArray.data same)

/-- Identifies a file for as long as it exists, wherever it is moved. -/
structure FileId where
  number : Nat
deriving DecidableEq, Repr

/-- Any directory can be gone through, but the names in it may be kept from being read. -/
inductive Node
  | directory (readable : Bool := true)
  | file (id : FileId) (content : Bytes) (executable : Bool)
  | link (target : Path)
deriving DecidableEq

structure StreamId where
  number : Nat
deriving DecidableEq, Repr

/-- An open file. All who write to one stream share its position; a stream that appends writes at the
end of the file, wherever that is. -/
structure Stream where
  file : FileId
  position : Nat
  appends : Bool
deriving DecidableEq, Repr

/-- A file system with its open files. `directory` is where relative paths start. -/
structure Files where
  nodes : Table Location Node
  streams : List Stream
  nextFile : Nat
  directory : Location

namespace Location

def path (location : Location) : Path := ⟨"/" ++ RawText.intercalate "/" location⟩

end Location

namespace Files

/-- The root and the directories above and including `directory`, all empty. -/
def bare (directory : Location) : Files :=
  { nodes := (List.range directory.length).foldl
      (fun nodes depth => nodes.put (directory.take (depth + 1)) .directory) .empty
    streams := []
    nextFile := 0
    directory }

instance : Inhabited Files := ⟨bare []⟩

def node? (files : Files) (location : Location) : Option Node :=
  if location.isEmpty then some .directory else files.nodes.find? location

/-- There is a directory at a location, whether its names may be read or not. -/
def DirectoryAt (files : Files) (location : Location) : Prop :=
  ∃ readable, files.node? location = some (.directory readable)

instance (files : Files) (location : Location) : Decidable (files.DirectoryAt location) :=
  match h : files.node? location with
  | some (.directory readable) => isTrue ⟨readable, h⟩
  | none | some (.file ..) | some (.link _) => isFalse fun ⟨_, hnode⟩ => by simp [h] at hnode

def put (files : Files) (location : Location) (node : Node) : Files :=
  { files with nodes := files.nodes.put location node }

/-- Removes what is at `location` and below it. -/
def erase (files : Files) (location : Location) : Files :=
  { files with nodes := files.nodes.filterKeys fun key => !location.isPrefixOf key }

/-- The names directly below `location`. -/
def names (files : Files) (location : Location) : List RawText :=
  files.nodes.keys.filterMap fun key => if key.dropLast = location then key.getLast? else none

def below (files : Files) (location : Location) : List Location :=
  files.nodes.keys.filter fun key => location.isPrefixOf key && key ≠ location

/-- Moves what is at `source` and below it to `target`. -/
def move (files : Files) (source target : Location) : Files :=
  let rename (key : Location) : Location :=
    match source.isPrefixOf? key with
    | some rest => target ++ rest
    | none => key
  { files with nodes := (files.erase target).nodes.mapKeys rename }

end Files

end Assay
