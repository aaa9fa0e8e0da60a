import Assay.Files.Operations

/-!
# Scripts

What a script says once it is read: words that are still to be expanded, and the commands made of them.
-/

namespace Assay.Host

/-- A part of a word as it is written in a script. Only what is not quoted is split into fields, and only
there are `*` and `?` patterns. -/
inductive Piece
  | plain (text : List Char)
  | quoted (text : List Char)
  /-- A parameter by its name, which may be followed by how its value is changed. -/
  | parameter (name : String) (quoted : Bool)
  | arithmetic (source : List Char) (quoted : Bool)
  | substitution (source : List Char) (quoted : Bool)
deriving DecidableEq, Repr

abbrev Word := List Piece

inductive Redirection
  | read (source : Word)
  | text (content : Word)
  | write (descriptor : Nat) (target : Word) (mode : OpenMode)
  | duplicate (descriptor : Nat) (source : Word)
deriving DecidableEq, Repr

/-- A shell script. -/
inductive Script
  | simple (assignments : List (String × Word)) (words : List Word)
  | redirected (script : Script) (redirections : List Redirection)
  | sequence (scripts : List Script)
  | both (left right : Script)
  | either (left right : Script)
  | negated (script : Script)
  | piped (left right : Script)
  | background (script : Script)
  | subshell (script : Script)
  | branch (condition accepted rejected : Script)
  /-- Repeats the body for as long as the condition holds, or until it does. -/
  | loop (holds : Bool) (condition body : Script)
  | forEach (name : String) (words : List Word) (body : Script)
  | define (name : String) (body : Script)
  | select (subject : Word) (branches : List (List Word × Script))

end Assay.Host
