import Assay.Files.Lookup

/-!
# Spelling paths out

The canonical path of a directory goes through no link. It is spelled out name by name, and each name is looked at by
the path from the root to it, so that path must not be too long, however short the way was that led there.
-/

namespace Assay

namespace Files

/-- How far a path is spelled out: to the end, or to a link that has to be followed. -/
inductive Spelling
  | done (location : Location)
  | blocked (fault : Fault)
  | redirected (start : Location) (segments : List RawText)

/-- Names that ask for a directory before them, without looking up anything in it. -/
def asksDirectory (rest : List RawText) : Bool :=
  match rest.dropWhile (· = RawText.ofText ".") with
  | [] => !rest.isEmpty
  | next :: _ => next = ".."

/-- What is found at a place by its own path, when these names are to follow. -/
def look (files : Files) (location : Location) (rest : List RawText) : Except Fault Node :=
  match files.lookup [] location.path false with
  | .ok (.occupied _ (.link target)) => .ok (.link target)
  | found =>
    match if asksDirectory rest then files.lookup [] ⟨location.path.text ++ "/"⟩ true else found with
    | .ok (.occupied _ node) => .ok node
    | .ok (.vacant _) => .error .notFound
    | .error fault => .error fault

/-- Spells names out up to the end or to a link. -/
def spellOut (files : Files) : Location → List RawText → Spelling
  | start, [] => .done start
  | start, segment :: rest =>
    if segment = "." then spellOut files start rest
    else if segment = ".." then spellOut files start.dropLast rest
    else
      match files.look (start ++ [segment]) rest with
      | .ok (.link target) =>
        .redirected (if target.isAbsolute then [] else start)
          (target.way ++ rest)
      | .ok _ => spellOut files (start ++ [segment]) rest
      | .error fault => .blocked fault

def spell (files : Files) : Nat → Location → List RawText → Except Fault Location
  | links, start, segments =>
    match files.spellOut start segments with
    | .done location => .ok location
    | .blocked fault => .error fault
    | .redirected start segments =>
      match links with
      | 0 => .error .linkLoop
      | links + 1 => spell files links start segments

/-- The location that `path` leads to, spelled out. The path itself may be of any length. -/
def canonicalize (files : Files) (base : Location) (path : Path) : Except Fault Location :=
  if path.text.bytes.contains 0 then .error .nulInPath
  else if path.text.isEmpty then .error .notFound
  else if path.isAbsolute then files.spell linkLimit [] path.way
  else if files.DirectoryAt base then files.spell linkLimit base path.way
  else .error .notFound

end Files

end Assay
