import Assay.Host.Script.Token

namespace Assay.Host.Script.Reader

abbrev Parse (α : Type) := List Token → Option (α × List Token)

def reserved : List String :=
  ["if", "then", "elif", "else", "fi", "while", "until", "for", "do", "done", "case", "esac",
    "\x7b", "\x7d", "!"]

def isKeyword (word : String) : Token → Bool
  | .word [.plain text] => text = word.toList
  | _ => false

def keyword (word : String) : Parse Unit
  | token :: rest => if isKeyword word token then some ((), rest) else none
  | [] => none

def operator (text : String) : Parse Unit
  | token :: rest => if token = .operator text then some ((), rest) else none
  | [] => none

def skipNewlines (tokens : List Token) : List Token :=
  tokens.dropWhile (· = .operator "\n")

def skipSeparators (tokens : List Token) : List Token :=
  tokens.dropWhile fun token => token = .operator "\n" ∨ token = .operator ";"

/-- A list of commands ends at the end of the script or at what closes the construct around it. -/
def endsList : List Token → Bool
  | [] => true
  | token :: _ =>
    token = .operator ")" || token = .operator ";;" ||
      ["then", "elif", "else", "fi", "do", "done", "esac", "\x7d"].any (isKeyword · token)

def redirection : Parse Redirection
  | .redirect descriptor operator :: .word target :: rest =>
    match operator with
    | "<" => some (.read target, rest)
    | "<<" => some (.text target, rest)
    | ">" => some (.write (descriptor.getD 1) target .truncate, rest)
    | ">>" => some (.write (descriptor.getD 1) target .append, rest)
    | ">&" => some (.duplicate (descriptor.getD 1) target, rest)
    | _ => none
  | _ => none

def redirections : Nat → Parse (List Redirection)
  | 0, _ => none
  | fuel + 1, tokens =>
    match tokens with
    | .redirect .. :: _ => do
      let (first, rest) ← redirection tokens
      let (more, rest) ← redirections fuel rest
      return (first :: more, rest)
    | _ => some ([], tokens)

def redirect (script : Script) (redirections : List Redirection) : Script :=
  if redirections.isEmpty then script else .redirected script redirections

/-- An unquoted name, an equals sign, and the rest of the word. -/
def assignment? : Word → Option (String × Word)
  | .plain text :: pieces =>
    let name := text.takeWhile Token.isNameChar
    match text.dropWhile Token.isNameChar with
    | '=' :: rest =>
      if name.head?.any Token.isNameStart then
        some (String.ofList name, if rest.isEmpty then pieces else .plain rest :: pieces)
      else none
    | _ => none
  | _ => none

/-- The parts of a simple command: assignments up to the first other word, words, redirections. -/
def simpleParts : Nat → Parse (List (String × Word) × List Word × List Redirection)
  | 0, _ => none
  | fuel + 1, tokens =>
    match tokens with
    | .word word :: rest => do
      let ((assignments, words, redirections), rest) ← simpleParts fuel rest
      match assignment? word with
      | some assignment => return ((assignment :: assignments, words, redirections), rest)
      | none =>
        let unused := assignments.map fun (name, value) => .plain (name.toList ++ ['=']) :: value
        return (([], word :: unused ++ words, redirections), rest)
    | .redirect .. :: _ => do
      let (first, rest) ← redirection tokens
      let ((assignments, words, redirections), rest) ← simpleParts fuel rest
      return ((assignments, words, first :: redirections), rest)
    | _ => some (([], [], []), tokens)

def simple (tokens : List Token) : Option (Script × List Token) := do
  let ((assignments, words, redirections), rest) ← simpleParts (tokens.length + 1) tokens
  if assignments.isEmpty ∧ words.isEmpty ∧ redirections.isEmpty then none
  else return (redirect (.simple assignments words) redirections, rest)

/-- The words up to the end of a line. -/
def words : Parse (List Word)
  | .word word :: rest => (words rest).map fun (more, rest) => (word :: more, rest)
  | rest => some ([], rest)

/-- The patterns of one branch, up to the bracket that ends them. -/
def patterns : Parse (List Word)
  | .word word :: .operator "|" :: rest =>
    (patterns rest).map fun (more, rest) => (word :: more, rest)
  | .word word :: .operator ")" :: rest => some ([word], rest)
  | _ => none

mutual

/-- Commands one after the other. -/
def commands : Nat → Parse Script
  | 0, _ => none
  | fuel + 1, tokens => do
    let (scripts, rest) ← commandList fuel (skipSeparators tokens)
    return (.sequence scripts, rest)

def commandList : Nat → Parse (List Script)
  | 0, _ => none
  | fuel + 1, tokens =>
    if endsList tokens then some ([], tokens)
    else do
      let (first, rest) ← chain fuel tokens
      match rest with
      | .operator "&" :: rest =>
        let (more, rest) ← commandList fuel (skipSeparators rest)
        return (.background first :: more, rest)
      | .operator ";" :: rest | .operator "\n" :: rest =>
        let (more, rest) ← commandList fuel (skipSeparators rest)
        return (first :: more, rest)
      | rest => if endsList rest then return ([first], rest) else none

/-- Pipelines joined by `&&` and `||`, which group to the left. -/
def chain : Nat → Parse Script
  | 0, _ => none
  | fuel + 1, tokens => do
    let (first, rest) ← pipeline fuel tokens
    chainAfter fuel first rest

def chainAfter : Nat → Script → Parse Script
  | 0, _, _ => none
  | fuel + 1, left, tokens =>
    match tokens with
    | .operator "&&" :: rest => do
      let (right, rest) ← pipeline fuel (skipNewlines rest)
      chainAfter fuel (.both left right) rest
    | .operator "||" :: rest => do
      let (right, rest) ← pipeline fuel (skipNewlines rest)
      chainAfter fuel (.either left right) rest
    | rest => some (left, rest)

def pipeline : Nat → Parse Script
  | 0, _ => none
  | fuel + 1, tokens =>
    match keyword "!" tokens with
    | some ((), rest) => (pipeline fuel rest).map fun (script, rest) => (.negated script, rest)
    | none => do
      let (first, rest) ← command fuel tokens
      match rest with
      | .operator "|" :: rest =>
        let (second, rest) ← pipeline fuel (skipNewlines rest)
        return (.piped first second, rest)
      | rest => return (first, rest)

def command : Nat → Parse Script
  | 0, _ => none
  | fuel + 1, tokens =>
    match tokens with
    | .operator "(" :: rest => do
      let (inside, rest) ← commands fuel rest
      let ((), rest) ← operator ")" rest
      decorate fuel (.subshell inside) rest
    | .word [.plain name] :: .operator "(" :: .operator ")" :: rest => do
      let (body, rest) ← command fuel (skipNewlines rest)
      return (.define (String.ofList name) body, rest)
    | token :: rest =>
      if isKeyword "\x7b" token then do
        let (inside, rest) ← commands fuel rest
        let ((), rest) ← keyword "\x7d" rest
        decorate fuel inside rest
      else if isKeyword "if" token then do
        let (script, rest) ← conditional fuel rest
        decorate fuel script rest
      else if isKeyword "while" token || isKeyword "until" token then do
        let (condition, rest) ← commands fuel rest
        let (body, rest) ← doGroup fuel rest
        decorate fuel (.loop (isKeyword "while" token) condition body) rest
      else if isKeyword "for" token then do
        let (script, rest) ← forLoop fuel rest
        decorate fuel script rest
      else if isKeyword "case" token then do
        let (script, rest) ← selection fuel rest
        decorate fuel script rest
      else if reserved.any (isKeyword · token) then none
      else simple tokens
    | [] => none

def decorate : Nat → Script → Parse Script
  | fuel, script, tokens =>
    (redirections fuel tokens).map fun (found, rest) => (redirect script found, rest)

/-- What follows `if` or `elif`. -/
def conditional : Nat → Parse Script
  | 0, _ => none
  | fuel + 1, tokens => do
    let (condition, rest) ← commands fuel tokens
    let ((), rest) ← keyword "then" rest
    let (accepted, rest) ← commands fuel rest
    match keyword "elif" rest, keyword "else" rest with
    | some ((), rest), _ =>
      let (rejected, rest) ← conditional fuel rest
      return (.branch condition accepted rejected, rest)
    | none, some ((), rest) =>
      let (rejected, rest) ← commands fuel rest
      let ((), rest) ← keyword "fi" rest
      return (.branch condition accepted rejected, rest)
    | none, none =>
      let ((), rest) ← keyword "fi" rest
      return (.branch condition accepted (.sequence []), rest)

def doGroup : Nat → Parse Script
  | 0, _ => none
  | fuel + 1, tokens => do
    let ((), rest) ← keyword "do" (skipSeparators tokens)
    let (body, rest) ← commands fuel rest
    let ((), rest) ← keyword "done" rest
    return (body, rest)

def forLoop : Nat → Parse Script
  | 0, _ => none
  | fuel + 1, tokens =>
    match tokens with
    | .word [.plain name] :: rest => do
      let (items, rest) ← match keyword "in" (skipNewlines rest) with
        | some ((), rest) => words rest
        | none => some ([[.parameter "@" true]], rest)
      let (body, rest) ← doGroup fuel rest
      return (.forEach (String.ofList name) items body, rest)
    | _ => none

def selection : Nat → Parse Script
  | 0, _ => none
  | fuel + 1, tokens =>
    match tokens with
    | .word subject :: rest => do
      let ((), rest) ← keyword "in" (skipNewlines rest)
      let (branches, rest) ← selectionBranches fuel (skipNewlines rest)
      return (.select subject branches, rest)
    | _ => none

def selectionBranches : Nat → Parse (List (List Word × Script))
  | 0, _ => none
  | fuel + 1, tokens =>
    match keyword "esac" tokens with
    | some ((), rest) => some ([], rest)
    | none => do
      let tokens := match tokens with
        | .operator "(" :: rest => rest
        | tokens => tokens
      let (found, rest) ← patterns tokens
      let (body, rest) ← commands fuel rest
      match rest with
      | .operator ";;" :: rest =>
        let (more, rest) ← selectionBranches fuel (skipNewlines rest)
        return ((found, body) :: more, rest)
      | rest =>
        let ((), rest) ← keyword "esac" rest
        return ([(found, body)], rest)

end

end Assay.Host.Script.Reader

namespace Assay.Host

/-- Reads a whole script. -/
def Script.ofText? (source : List Char) : Option Script := do
  let tokens ← Token.ofText? source
  let (script, rest) ← Script.Reader.commands (8 * tokens.length + 16) tokens
  if rest.isEmpty then some script else none

end Assay.Host
