import Assay.Host.Script
import Assay.Text.Split

/-!
# Tokens of a script

Words are cut into pieces here, because what is quoted is known only from the text. The text of a
here-document is taken out of the lines below the one that asks for it.
-/

namespace Assay.Host

inductive Token
  | word (word : Word)
  | operator (text : String)
  | redirect (descriptor : Option Nat) (operator : String)
deriving DecidableEq, Repr

namespace Token

/-- The text up to the bracket that closes an open one, and what follows that bracket. -/
def untilClose (opening closing : Char) (depth : Nat) (quote : Option Char) :
    List Char → Option (List Char × List Char)
  | [] => none
  | '\\' :: char :: rest =>
    (untilClose opening closing depth quote rest).map fun (inside, rest) =>
      ('\\' :: char :: inside, rest)
  | char :: rest =>
    let goOn (depth : Nat) (quote : Option Char) :=
      (untilClose opening closing depth quote rest).map fun (inside, rest) => (char :: inside, rest)
    match quote with
    | some mark => goOn depth (if char = mark then none else quote)
    | none =>
      if char = '\'' ∨ char = '"' then goOn depth (some char)
      else if char = opening then goOn (depth + 1) none
      else if char = closing then
        match depth with
        | 0 => some ([], rest)
        | depth + 1 => goOn depth none
      else goOn depth none

def isNameStart (char : Char) : Bool := char.isAlpha || char = '_'

def isNameChar (char : Char) : Bool := char.isAlphanum || char = '_'

def isSpecialParameter (char : Char) : Bool :=
  char.isDigit || ['@', '*', '#', '?', '$', '!', '-'].contains char

/-- What stands after a dollar sign. -/
def dollar (quoted : Bool) (source : List Char) : Option (Piece × List Char) :=
  match source with
  | '(' :: rest => do
    let (inside, rest) ← untilClose '(' ')' 0 none rest
    match inside.head?, inside.getLast? with
    | some '(', some ')' => some (.arithmetic (inside.drop 1).dropLast quoted, rest)
    | _, _ => some (.substitution inside quoted, rest)
  | '{' :: rest => do
    let (inside, rest) ← untilClose '{' '}' 0 none rest
    return (.parameter (String.ofList inside) quoted, rest)
  | char :: rest =>
    if isNameStart char then
      some (.parameter (String.ofList (source.takeWhile isNameChar)) quoted,
        source.dropWhile isNameChar)
    else if isSpecialParameter char then some (.parameter (String.ofList [char]) quoted, rest)
    else some (.quoted ['$'], source)
  | [] => some (.quoted ['$'], [])

/-- The text up to the next backquote that is not escaped, and what follows it. -/
def untilBackquote : List Char → Option (List Char × List Char)
  | [] => none
  | '\x60' :: rest => some ([], rest)
  | '\\' :: char :: rest =>
    (untilBackquote rest).map fun (inside, rest) =>
      (if ['$', '\x60', '\\'].contains char then char :: inside else '\\' :: char :: inside, rest)
  | char :: rest => (untilBackquote rest).map fun (inside, rest) => (char :: inside, rest)

def backquoted (quoted : Bool) (source : List Char) : Option (Piece × List Char) :=
  (untilBackquote source).map fun (inside, rest) => (.substitution inside quoted, rest)

/-- The pieces of a text in which only a dollar sign, a backquote and a backslash mean something. It ends
at a double quote if it is `closed`, and with the source if not. -/
def quotedPieces (closed : Bool) : Nat → List Char → Option (Word × List Char)
  | 0, _ => none
  | fuel + 1, source =>
    match source with
    | [] => if closed then none else some ([], [])
    | '\\' :: '\n' :: rest => quotedPieces closed fuel rest
    | '\\' :: char :: rest => do
      let isEscape := ['$', '\x60', '\\'].contains char || closed && char = '"'
      let (pieces, rest) ← quotedPieces closed fuel rest
      return (.quoted (if isEscape then [char] else ['\\', char]) :: pieces, rest)
    | '$' :: rest => do
      let (piece, rest) ← dollar true rest
      let (pieces, rest) ← quotedPieces closed fuel rest
      return (piece :: pieces, rest)
    | '\x60' :: rest => do
      let (piece, rest) ← backquoted true rest
      let (pieces, rest) ← quotedPieces closed fuel rest
      return (piece :: pieces, rest)
    | char :: rest =>
      if closed && char = '"' then some ([], rest)
      else do
        let (pieces, rest) ← quotedPieces closed fuel rest
        return (.quoted [char] :: pieces, rest)

/-- Characters that end a word. -/
def endsWord (char : Char) : Bool :=
  [' ', '\t', '\n', ';', '&', '|', '<', '>', '(', ')'].contains char

/-- Puts a piece in front of a word, joined with the first piece where both are plain. -/
def consPiece : Piece → Word → Word
  | .plain text, .plain more :: pieces => .plain (text ++ more) :: pieces
  | piece, pieces => piece :: pieces

/-- The pieces up to the end of a word. -/
def wordPieces (ends : Char → Bool) : Nat → List Char → Option (Word × List Char)
  | 0, _ => none
  | fuel + 1, source =>
    let after (piece : Piece) (rest : List Char) : Option (Word × List Char) :=
      (wordPieces ends fuel rest).map fun (pieces, rest) => (consPiece piece pieces, rest)
    match source with
    | [] => some ([], [])
    | '\\' :: '\n' :: rest => wordPieces ends fuel rest
    | '\\' :: char :: rest => after (.quoted [char]) rest
    | '\'' :: rest =>
      match rest.dropWhile (· ≠ '\'') with
      | _ :: more => after (.quoted (rest.takeWhile (· ≠ '\''))) more
      | [] => none
    | '"' :: rest => do
      let (inside, rest) ← quotedPieces true fuel rest
      let (pieces, rest) ← wordPieces ends fuel rest
      return (.quoted [] :: inside ++ pieces, rest)
    | '$' :: rest => do
      let (piece, rest) ← dollar false rest
      after piece rest
    | '\x60' :: rest => do
      let (piece, rest) ← backquoted false rest
      after piece rest
    | char :: rest => if ends char then some ([], source) else after (.plain [char]) rest

/-- The text of a word that is taken as it is, and whether any of it is quoted. -/
def literal? : Word → Option (List Char × Bool)
  | [] => some ([], false)
  | .plain text :: pieces =>
    (literal? pieces).map fun (more, quoted) => (text ++ more, quoted)
  | .quoted text :: pieces => (literal? pieces).map fun (more, _) => (text ++ more, true)
  | _ => none

/-- Lines up to the one that is equal to `mark`, and the lines after it. -/
def untilMark (mark : List Char) : List (List Char) → List (List Char) × List (List Char)
  | [] => ([], [])
  | line :: rest =>
    if line = mark then ([], rest)
    else
      let (body, after) := untilMark mark rest
      (line :: body, after)

/-- Takes the text of a here-document out of the lines below the current one. -/
def takeDocument (mark : List Char) (tabless : Bool) (source : List Char) : List Char × List Char :=
  let line := source.takeWhile (· ≠ '\n')
  let below := Text.splitAll '\n' (source.drop (line.length + 1))
  let below := if tabless then below.map (·.dropWhile (· = '\t')) else below
  let (body, after) := untilMark mark below
  (body.flatMap (· ++ ['\n']), line ++ '\n' :: List.intercalate ['\n'] after)

def operator? : List Char → Option (Token × List Char)
  | '&' :: '&' :: rest => some (.operator "&&", rest)
  | '|' :: '|' :: rest => some (.operator "||", rest)
  | ';' :: ';' :: rest => some (.operator ";;", rest)
  | '>' :: '>' :: rest => some (.redirect none ">>", rest)
  | '>' :: '&' :: rest => some (.redirect none ">&", rest)
  | '<' :: '&' :: rest => some (.redirect none "<&", rest)
  | '&' :: rest => some (.operator "&", rest)
  | '|' :: rest => some (.operator "|", rest)
  | ';' :: rest => some (.operator ";", rest)
  | '(' :: rest => some (.operator "(", rest)
  | ')' :: rest => some (.operator ")", rest)
  | '\n' :: rest => some (.operator "\n", rest)
  | '>' :: rest => some (.redirect none ">", rest)
  | '<' :: rest => some (.redirect none "<", rest)
  | _ => none

/-- A number directly in front of a redirection belongs to it. -/
def withDescriptor : List Token → List Token
  | .word [.plain [digit]] :: .redirect none mark :: rest =>
    if digit.isDigit then .redirect (some (digit.toNat - '0'.toNat)) mark :: rest
    else .word [.plain [digit]] :: .redirect none mark :: rest
  | tokens => tokens

/-- The word that holds a here-document, and the source without it. The source begins after the
operator. -/
def document (fuel : Nat) (source : List Char) : Option (Word × List Char) := do
  let (tabless, source) := match source with
    | '-' :: rest => (true, rest)
    | _ => (false, source)
  let isGap (char : Char) : Bool := char = ' ' || char = '\t'
  let (pieces, rest) ← wordPieces endsWord fuel (source.dropWhile isGap)
  let (mark, quoted) ← literal? pieces
  let (body, rest) := takeDocument mark tabless rest
  if quoted then return ([.quoted body], rest)
  else
    let (pieces, _) ← quotedPieces false (body.length + 1) body
    return (pieces, rest)

/-- The tokens of a script, comments left out. -/
def scan : Nat → List Char → Option (List Token)
  | 0, _ => none
  | fuel + 1, source =>
    match source with
    | [] => some []
    | ' ' :: rest | '\t' :: rest => scan fuel rest
    | '\\' :: '\n' :: rest => scan fuel rest
    | '#' :: rest => scan fuel (rest.dropWhile (· ≠ '\n'))
    | '<' :: '<' :: rest => do
      let (body, rest) ← document fuel rest
      return .redirect none "<<" :: .word body :: (← scan fuel rest)
    | source =>
      match operator? source with
      | some (token, rest) => (scan fuel rest).map (token :: ·)
      | none => do
        let (pieces, rest) ← wordPieces endsWord fuel source
        let tokens ← scan fuel rest
        let tokens := .word pieces :: tokens
        return if rest.head? = some '>' ∨ rest.head? = some '<' then withDescriptor tokens else tokens

def ofText? (source : List Char) : Option (List Token) :=
  scan (source.length + 2) source

end Token

end Assay.Host
