import Assay.Task
import Assay.Text.Split

/-!
# Artifacts

A run leaves its work in the directory it ran in, under a name of its own choosing. It is found by the end of
its name, and there has to be exactly one.
-/

namespace Assay

namespace Artifact

/-- Why a directory does not hold the one artifact looked for. -/
inductive Problem
  | missing (directory : Path) (suffix : String)
  | ambiguous (directory : Path) (suffix : String) (count : Nat)
  | unreadable (directory : Path) (fault : Fault)
deriving DecidableEq, Repr

namespace Problem

def directory : Problem → Path
  | missing directory _ | ambiguous directory _ _ | unreadable directory _ => directory

/-- How many candidates there were. -/
def candidates : Problem → Nat
  | ambiguous _ _ count => count
  | missing .. | unreadable .. => 0

def message : Problem → String
  | missing directory suffix => "no file ending in `" ++ suffix ++ "` in " ++ directory.shown
  | ambiguous directory suffix count =>
    Nat.repr count ++ " files ending in `" ++ suffix ++ "` in " ++ directory.shown
  | unreadable directory fault => "cannot read " ++ directory.shown ++ ": " ++ fault.message

end Problem

/-- The end of a name is looked at as it is shown. -/
def hasSuffix (suffix : String) (name : RawText) : Bool :=
  suffix.toList.isSuffixOf name.lossy.toList

/-- The only file among `names` that ends in `suffix`. There is no tie-break. -/
def choose (directory : Path) (suffix : String) (names : List RawText) : Except Problem Path :=
  match names.filter (hasSuffix suffix) with
  | [] => .error (.missing directory suffix)
  | [name] => .ok (directory.join ⟨name⟩)
  | several => .error (.ambiguous directory suffix several.length)

def ofListing (directory : Path) (suffix : String) :
    Except Fault (List RawText) → Except Problem Path
  | .error fault => .error (.unreadable directory fault)
  | .ok names => choose directory suffix names

/-- The single artifact that a run left directly in `directory`. -/
def locate (files : Files) (directory : Path) (suffix : String) : Except Problem Path :=
  ofListing directory suffix (files.listFiles files.directory directory)

end Artifact

end Assay
