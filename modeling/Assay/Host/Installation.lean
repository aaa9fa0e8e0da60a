import Assay.Host.Utility.Change
import Assay.Host.Utility.Compare
import Assay.Host.Utility.Print
import Assay.Host.Utility.Read
import Assay.Host.Utility.Signal
import Assay.Host.Utility.Test

/-!
# Installed programs

The utilities stand in the files like any other program, so that they can be found, linked, copied and
removed.
-/

namespace Assay.Host

namespace Utility

/-- The utilities by name, those apart that run other programs. -/
def all : List (String × Utility) :=
  [("true", fun _ => return 0), ("false", fun _ => return 1), ("echo", echo), ("printf", printf),
    ("pwd", pwd), ("cat", cat), ("diff", compare "diff" true), ("cmp", compare "cmp" false),
    ("sleep", sleep), ("rm", rm), ("cp", cp), ("mv", mv), ("mkdir", mkdir), ("rmdir", rmdir),
    ("touch", touch), ("ln", ln), ("chmod", chmod), ("wc", wc), ("ls", ls), ("test", test),
    ("[", bracket), ("kill", kill), ("head", head), ("tail", tail), ("tee", tee), ("seq", seq),
    ("sort", sort), ("basename", basename), ("dirname", dirname)]

def find? (name : String) : Option Utility := all.lookup name

end Utility

/-- The file content that makes up an installed program. A copy of it is the same program. -/
structure Image where
  name : String
deriving DecidableEq, Repr

namespace Image

def mark : Bytes := Octets.bytes "\x7fELF"

def content (image : Image) : Bytes := mark ++ Octets.bytes image.name

def ofContent? (content : Bytes) : Option Image :=
  if content.extract 0 mark.size = mark then
    some ⟨Octets.word (content.extract mark.size content.size)⟩
  else none

end Image

/-- Installed programs that run other programs. -/
def launchers : List String := ["sh", "env"]

def installed : List String := launchers ++ Utility.all.map Prod.fst

/-- Where programs are that are called by their name only. -/
def searchDirectory : Location := ["usr", "bin"]

/-- Adds the installed programs to files that have nothing in their place. -/
def install (files : Files) : Files :=
  let directories := (files.put ["usr"] .directory).put searchDirectory .directory
  let linked := directories.put ["bin"] (.link ⟨"usr/bin"⟩)
  installed.foldl (fun files name =>
    { files.put (searchDirectory ++ [Octets.raw name])
        (.file ⟨files.nextFile⟩ (Image.content ⟨name⟩) true) with
      nextFile := files.nextFile + 1 }) linked

end Assay.Host
