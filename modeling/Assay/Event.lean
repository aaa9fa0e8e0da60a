namespace Assay

inductive Level
  | debug
  | info
  | warn
  | error
deriving DecidableEq, Repr

def Level.text : Level → String
  | debug => "DEBUG"
  | info => "INFO"
  | warn => "WARN"
  | error => "ERROR"

/-- Who speaks: the batch as a whole, the classification of one submission, or a step on the way. -/
inductive Topic
  | batch
  | outcome
  | step
deriving DecidableEq, Repr

structure Event where
  level : Level
  message : String
  fields : List (String × String) := []
  topic : Topic := .step
deriving DecidableEq, Repr

def Event.text (event : Event) : String :=
  event.fields.foldl (fun text field => text ++ " " ++ field.1 ++ "=" ++ field.2)
    (event.level.text ++ " " ++ event.message)

end Assay
