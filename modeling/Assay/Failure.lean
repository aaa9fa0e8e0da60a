import Assay.Files.Fault
import Assay.Path

namespace Assay

/-- What ends a whole batch, as opposed to what is held against one submission. -/
inductive Failure
  | launch (program detail : String)
  | io (fault : Fault)
  | config (detail : String)
  | configFormat
  | collection (directory : Path) (fault : Fault)
  | worker (detail : String)
deriving DecidableEq, Repr

def launchMessage (program detail : String) : String :=
  "failed to launch `" ++ program ++ "`: " ++ detail

def Failure.message : Failure → String
  | launch program detail => launchMessage program detail
  | io _ => "io error"
  | config detail => "config error: " ++ detail
  | configFormat => "invalid config file"
  | collection directory _ => "cannot enumerate submissions in " ++ directory.shown
  | worker detail => "worker failed: " ++ detail

end Assay
