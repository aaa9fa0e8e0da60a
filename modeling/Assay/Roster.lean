import Assay.Files.Canonical
import Assay.Outcome
import Assay.World

/-!
# Who takes part

Submissions are the directories directly below one directory, in the order of their names.
-/

namespace Assay.Roster

/-- The names directly below `location` that are directories themselves. -/
def directories (files : Files) (location : Location) : List RawText :=
  (files.names location).filter fun name => files.DirectoryAt (location ++ [name])

/-- The submissions below a directory: one for each directory in it, sorted by label, which is its
name as it is shown. Links do not count, and roots are spelled out from the root of the file system. -/
def ofLocation (files : Files) (location : Location) : List Submission :=
  ((directories files location).mergeSort fun left right => left.lossy ≤ right.lossy).map fun name =>
    .ofRoot name.lossy (location.path.join ⟨name⟩)

/-- The directory that is read: the path is spelled out first, and then it is opened by what it has come to. -/
def opened (files : Files) (directory : Path) : Except Fault Location :=
  match files.canonicalize files.directory directory with
  | .error fault => .error fault
  | .ok location => files.openDirectory files.directory location.path

def discover {ρ : Type} (directory : Path) (world : World ρ) :
    Except Failure (List Submission) × World ρ :=
  match opened world.files directory with
  | .error fault => (.error (.collection directory fault), world)
  | .ok location =>
    let submissions := ofLocation world.files location
    (.ok submissions, world.info s!"Found {submissions.length} submissions")

end Assay.Roster
