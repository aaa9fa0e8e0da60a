import Assay.Files.Operations

namespace Assay

/-- A change to files. What stands in its way makes it have no effect. -/
inductive FileAction
  | directory (path : Path)
  | file (path : Path) (content : Bytes) (executable : Bool)
  | link (path target : Path)
  | remove (path : Path)

namespace FileAction

def path : FileAction → Path
  | directory path | file path _ _ | link path _ | remove path => path

/-- Takes `base` for the start of a relative path. -/
def relativeTo (base : Path) : FileAction → FileAction
  | directory path => directory (base.join path)
  | file path content executable => file (base.join path) content executable
  | link path target => link (base.join path) target
  | remove path => remove (base.join path)

def withParent (files : Files) (base : Location) (path : Path) : Files :=
  match path.parent? with
  | some parent => (files.ensureDirectory base parent).2
  | none => files

/-- Directories that are missing above a path are made first. -/
def apply (files : Files) (base : Location) : FileAction → Files
  | directory path => (files.ensureDirectory base path).2
  | file path content executable =>
    let files := withParent files base path
    match files.writeFile base path content with
    | .ok written =>
      if executable then (written.setExecutable base path true).toOption.getD written else written
    | .error _ => files
  | link path target =>
    let files := withParent files base path
    (files.makeLink base path target).toOption.getD files
  | remove path => (files.remove base path).toOption.getD files

def applyAll (files : Files) (base : Location) (actions : List FileAction) : Files :=
  actions.foldl (fun files action => action.apply files base) files

end FileAction

end Assay
