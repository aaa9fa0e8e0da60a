import Assay.Files.Basic
import Assay.Files.Fault

/-!
# Looking paths up

A path is walked name by name. At a link the walk stops and starts again with the target in place of the
link, so each piece of a walk is structural in the names left, and the links are counted.
-/

namespace Assay

/-- What a path leads to: something that exists, or a name that a directory does not have yet. -/
inductive Place
  | occupied (location : Location) (node : Node)
  | vacant (location : Location)

namespace Files

inductive Walk
  | arrived (place : Place)
  | blocked (fault : Fault)
  | redirected (start : Location) (segments : List RawText)

/-- The longest name a directory can hold, in bytes. -/
def nameLimit : Nat := 255

/-- The longest path that is looked up, in bytes with its terminator. -/
def pathLimit : Nat := 4096

/-- How many links one lookup follows. -/
def linkLimit : Nat := 40

/-- Walks along `segments` up to the end or to a link that has to be followed. -/
def advance (files : Files) (follow : Bool) : Location → List RawText → Walk
  | start, [] =>
    match files.node? start with
    | some node => .arrived (.occupied start node)
    | none => .blocked .notFound
  | start, segment :: rest =>
    if segment = "." then advance files follow start rest
    else if segment = ".." then advance files follow start.dropLast rest
    else if nameLimit < segment.size then .blocked .nameTooLong
    else
      let next := start ++ [segment]
      match files.node? next with
      | none => if rest.isEmpty then .arrived (.vacant next) else .blocked .notFound
      | some (.directory _) => advance files follow next rest
      | some (.file id content executable) =>
        if rest.isEmpty then .arrived (.occupied next (.file id content executable))
        else .blocked .notADirectory
      | some (.link target) =>
        if rest.isEmpty && !follow then .arrived (.occupied next (.link target))
        else
          .redirected (if target.isAbsolute then [] else start)
            (target.way ++ rest)

def walk (files : Files) (follow : Bool) : Nat → Location → List RawText → Except Fault Place
  | links, start, segments =>
    match advance files follow start segments with
    | .arrived place => .ok place
    | .blocked fault => .error fault
    | .redirected start segments =>
      match links with
      | 0 => .error .linkLoop
      | links + 1 => walk files follow links start segments

/-- Looks `path` up from the directory `base`. Links on the way are followed, a link at the end only
if `follow` says so or a separator stands after it. -/
def lookup (files : Files) (base : Location) (path : Path) (follow : Bool) : Except Fault Place :=
  if path.text.bytes.contains 0 then .error .nulInPath
  else if path.text.isEmpty then .error .notFound
  else if pathLimit ≤ path.text.size then .error .nameTooLong
  else if path.isAbsolute then
    walk files follow linkLimit [] path.way
  else if files.DirectoryAt base then
    walk files follow linkLimit base path.way
  else .error .notFound

/-- What exists under `path`, links followed. -/
def find (files : Files) (base : Location) (path : Path) : Except Fault (Location × Node) :=
  match files.lookup base path true with
  | .ok (.occupied location node) => .ok (location, node)
  | .ok (.vacant _) => .error .notFound
  | .error fault => .error fault

def isFile (files : Files) (base : Location) (path : Path) : Bool :=
  match files.find base path with
  | .ok (_, .file ..) => true
  | _ => false

def isDirectory (files : Files) (base : Location) (path : Path) : Bool :=
  match files.find base path with
  | .ok (_, .directory _) => true
  | _ => false

/-- The directory that `path` leads to. -/
def findDirectory (files : Files) (base : Location) (path : Path) : Except Fault Location :=
  match files.find base path with
  | .ok (location, .directory _) => .ok location
  | .ok _ => .error .notADirectory
  | .error fault => .error fault

/-- The directory that `path` leads to, opened to read the names in it. -/
def openDirectory (files : Files) (base : Location) (path : Path) : Except Fault Location :=
  match files.find base path with
  | .ok (location, .directory true) => .ok location
  | .ok (_, .directory false) => .error .permissionDenied
  | .ok _ => .error .notADirectory
  | .error fault => .error fault

end Files

end Assay
