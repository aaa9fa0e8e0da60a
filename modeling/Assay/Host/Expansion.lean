import Assay.Host.Script.Token
import Assay.Host.Session
import Assay.Text.Split

/-!
# Expansion

What the words of a script stand for: parameters, arithmetic, what other scripts print, the fields that
follow from gaps, and the paths that follow from patterns.
-/

namespace Assay.Host

/-- A character of an expanded word, and whether it stands for itself even where it could be a pattern. -/
abbrev Glyph := Char × Bool

abbrev Field := List Glyph

def Field.text (field : Field) : String := String.ofList (field.map Prod.fst)

def glyphs (text : List Char) (quoted : Bool) : Field := text.map fun char => (char, quoted)

namespace Pattern

/-- Whether a character is in a set as it is written between square brackets. -/
def setContains (char : Char) : Field → Bool
  | (first, _) :: ('-', false) :: (last, _) :: rest =>
    first ≤ char && char ≤ last || setContains char rest
  | (member, _) :: rest => char = member || setContains char rest
  | [] => false

/-- Reads a set from behind its opening bracket: whether it is negated, its members, and what follows. -/
def readSet? (source : Field) : Option (Bool × Field × Field) :=
  let (negated, source) := match source with
    | ('!', false) :: rest | ('^', false) :: rest => (true, rest)
    | _ => (false, source)
  let (start, rest) := (source.take 1, source.drop 1)
  let members := start ++ rest.takeWhile (· ≠ (']', false))
  match source.drop members.length with
  | _ :: rest => some (negated, members, rest)
  | [] => none

/-- Matches a whole text; `*` stands for any text, `?` for any character, a set for one of its
members. -/
def acceptsWithin : Nat → Field → List Char → Bool
  | 0, _, _ => false
  | _, [], text => text.isEmpty
  | fuel + 1, ('*', false) :: rest, text => (tails text).any (acceptsWithin fuel rest)
  | fuel + 1, ('?', false) :: rest, _ :: text => acceptsWithin fuel rest text
  | fuel + 1, (char, quoted) :: rest, other :: text =>
    match if char = '[' && !quoted then readSet? rest else none with
    | some (negated, members, rest) =>
      setContains other members ≠ negated && acceptsWithin fuel rest text
    | none => char = other && acceptsWithin fuel rest text
  | _, _ :: _, [] => false
where
  tails : List Char → List (List Char)
    | [] => [[]]
    | char :: rest => (char :: rest) :: tails rest

def accepts (pattern : Field) (text : List Char) : Bool :=
  acceptsWithin (pattern.length + 1) pattern text

def isPattern (field : Field) : Bool :=
  field.any fun glyph => !glyph.2 && ['*', '?', '['].contains glyph.1

end Pattern

namespace Arithmetic

/-- Reads numbers, variables, brackets, signs, products, sums and comparisons, and works them out. -/
abbrev Reader := List Char → Option (Int × List Char)

def skip (source : List Char) : List Char := source.dropWhile Char.isWhitespace

/-- The operators of each level, the loosest first; the longer of two is tried first. -/
def levels : List (List (String × (Int → Int → Int))) :=
  let truth (holds : Bool) : Int := if holds then 1 else 0
  [[("||", fun a b => truth (a ≠ 0 || b ≠ 0))],
    [("&&", fun a b => truth (a ≠ 0 && b ≠ 0))],
    [("==", fun a b => truth (a = b)), ("!=", fun a b => truth (a ≠ b))],
    [("<=", fun a b => truth (a ≤ b)), (">=", fun a b => truth (b ≤ a)),
      ("<", fun a b => truth (a < b)), (">", fun a b => truth (b < a))],
    [("+", (· + ·)), ("-", (· - ·))],
    [("*", (· * ·)), ("/", Int.tdiv), ("%", Int.tmod)]]

def operator? (operators : List (String × (Int → Int → Int))) (source : List Char) :
    Option ((Int → Int → Int) × List Char) :=
  operators.findSome? fun (text, apply) =>
    (text.toList.isPrefixOf? source).map fun rest => (apply, rest)

mutual

def level (value : String → Int) : Nat → List (List (String × (Int → Int → Int))) → Reader
  | 0, _, _ => none
  | fuel + 1, [], source => atom value fuel (skip source)
  | fuel + 1, operators :: tighter, source => do
    let (left, rest) ← level value fuel tighter source
    levelAfter value fuel operators tighter left rest

def levelAfter (value : String → Int) : Nat → List (String × (Int → Int → Int)) →
    List (List (String × (Int → Int → Int))) → Int → Reader
  | 0, _, _, _, _ => none
  | fuel + 1, operators, tighter, left, source =>
    match operator? operators (skip source) with
    | none => some (left, source)
    | some (apply, rest) => do
      let (right, rest) ← level value fuel tighter rest
      levelAfter value fuel operators tighter (apply left right) rest

def atom (value : String → Int) : Nat → Reader
  | 0, _ => none
  | fuel + 1, source =>
    match source with
    | '(' :: rest => do
      let (inside, rest) ← level value fuel levels rest
      match skip rest with
      | ')' :: rest => some (inside, rest)
      | _ => none
    | '-' :: rest => (atom value fuel (skip rest)).map fun (number, rest) => (-number, rest)
    | '+' :: rest => atom value fuel (skip rest)
    | '!' :: rest =>
      (atom value fuel (skip rest)).map fun (number, rest) => (if number = 0 then 1 else 0, rest)
    | '$' :: rest => atom value fuel rest
    | char :: rest =>
      if char.isDigit then
        let digits := source.takeWhile Char.isDigit
        some ((String.ofList digits).toInt?.getD 0, source.dropWhile Char.isDigit)
      else if Token.isNameStart char then
        some (value (String.ofList (source.takeWhile Token.isNameChar)),
          rest.dropWhile Token.isNameChar)
      else none
    | [] => none

end

def evaluate? (value : String → Int) (source : List Char) : Option Int := do
  let (number, rest) ← level value (8 * source.length + 32) levels source
  if (skip rest).isEmpty then some number else none

end Arithmetic

namespace Act

/-- What a parameter stands for; one that is not set stands for nothing. -/
def parameter (name : String) : Act String := do
  let session ← get
  let frame := session.frame
  match name with
  | "#" => return Nat.repr frame.arguments.length
  | "?" => return Nat.repr session.status
  | "$" => return Nat.repr frame.process
  | "@" | "*" => return " ".intercalate frame.arguments
  | "!" => return (frame.lastJob.map Nat.repr).getD ""
  | "-" => return ""
  | "PWD" => return Octets.ofPath frame.directory.path
  | _ =>
    match name.toNat? with
    | some 0 => return frame.name
    | some position => return frame.arguments[position - 1]?.getD ""
    | none => return (frame.settings.find? name).getD ""

def arithmetic (source : List Char) : Act (List Char) := do
  let frame ← frame
  let value (name : String) : Int := ((frame.settings.find? name).bind String.toInt?).getD 0
  match Arithmetic.evaluate? value source with
  | some number => return (toString number).toList
  | none => do
    complain "arithmetic expression: expecting primary"
    throw (.exited 2)

def dropNewlines (text : List Char) : List Char :=
  (text.reverse.dropWhile (· = '\n')).reverse

def pieceIsQuoted : Piece → Bool
  | .plain _ => false
  | .quoted _ => true
  | .parameter _ quoted | .arithmetic _ quoted | .substitution _ quoted => quoted

/-- Whether a parameter has a value, which may be empty. -/
def isSet (name : String) : Act Bool := do
  let frame ← frame
  match name.toNat? with
  | some position => return position ≤ frame.arguments.length
  | none =>
    return (frame.settings.find? name).isSome || !name.toList.all Token.isNameChar || name = "PWD"

/-- The name at the start of a parameter, and what follows it. -/
def splitParameter (source : List Char) : List Char × List Char :=
  match source with
  | char :: rest =>
    if Token.isNameStart char then
      (source.takeWhile Token.isNameChar, source.dropWhile Token.isNameChar)
    else ([char], rest)
  | [] => ([], [])

/-- Without the shortest or the longest part at its start that a pattern accepts. -/
def dropStart (pattern : Field) (longest : Bool) (text : List Char) : List Char :=
  let lengths := List.range (text.length + 1)
  let found := (if longest then lengths.reverse else lengths).find? fun length =>
    Pattern.accepts pattern (text.take length)
  text.drop (found.getD 0)

def dropEnd (pattern : Field) (longest : Bool) (text : List Char) : List Char :=
  let lengths := List.range (text.length + 1)
  let found := (if longest then lengths.reverse else lengths).find? fun length =>
    Pattern.accepts pattern (text.drop (text.length - length))
  text.take (text.length - found.getD 0)

/-- The value of a parameter, changed as what follows its name says. `operand` expands the rest. -/
def parameterText (operand : List Char → Act Field) (source : List Char) : Act (List Char) := do
  match source with
  | '#' :: char :: rest => do
    return (Nat.repr (← parameter (String.ofList (char :: rest))).length).toList
  | source => do
    let (name, change) := splitParameter source
    let name := String.ofList name
    let value ← parameter name
    let text := value.toList
    let isSet ← isSet name
    let expanded (rest : List Char) : Act (List Char) := do
      return (← operand rest).map Prod.fst
    let assigned (rest : List Char) : Act (List Char) := do
      let text ← expanded rest
      modifyFrame fun frame =>
        { frame with settings := frame.settings.put name (String.ofList text) }
      return text
    let required (rest : List Char) : Act (List Char) := do
      complain (name ++ ": " ++ String.ofList (← expanded rest))
      throw (.exited 2)
    match change with
    | [] => return text
    | ':' :: '-' :: rest => if text.isEmpty then expanded rest else return text
    | ':' :: '=' :: rest => if text.isEmpty then assigned rest else return text
    | ':' :: '+' :: rest => if text.isEmpty then return [] else expanded rest
    | ':' :: '?' :: rest => if text.isEmpty then required rest else return text
    | '-' :: rest => if isSet then return text else expanded rest
    | '=' :: rest => if isSet then return text else assigned rest
    | '+' :: rest => if isSet then expanded rest else return []
    | '?' :: rest => if isSet then return text else required rest
    | '#' :: '#' :: rest => return dropStart (← operand rest) true text
    | '#' :: rest => return dropStart (← operand rest) false text
    | '%' :: '%' :: rest => return dropEnd (← operand rest) true text
    | '%' :: rest => return dropEnd (← operand rest) false text
    | _ => do
      complain "Bad substitution"
      throw (.exited 2)

/-- The text that a piece stands for. `run` runs a script and hands over what it prints. Pieces can be
inside one another up to a depth. -/
def pieceText (run : List Char → Act Bytes) : Nat → Piece → Act (List Char)
  | _, .plain text | _, .quoted text => return text
  | _, .arithmetic source _ => arithmetic source
  | _, .substitution source _ => do
    return dropNewlines (Octets.word (← run source)).toList
  | 0, .parameter name _ => return (← parameter name).toList
  | depth + 1, .parameter name _ =>
    parameterText (fun source => do
      let pieces := (Token.wordPieces (fun _ => false) (source.length + 1) source).elim [] Prod.fst
      let parts ← pieces.mapM fun piece => do
        return glyphs (← pieceText run depth piece) (pieceIsQuoted piece)
      return parts.flatten) name.toList

def pieceDepth : Nat := 20

/-- A word that stays one field. -/
def expandWhole (run : List Char → Act Bytes) (word : Word) : Act Field := do
  let parts ← word.mapM fun piece => do
    return glyphs (← pieceText run pieceDepth piece) (pieceIsQuoted piece)
  return parts.flatten

def isFieldSpace (char : Char) : Bool := char = ' ' || char = '\t' || char = '\n'

/-- Adds a text to the fields so far, and starts a new one at every gap. -/
def addSplit (fields : List Field × Option Field) (text : List Char) : List Field × Option Field :=
  text.foldl (fun (done, current) char =>
    if isFieldSpace char then (done ++ current.toList, none)
    else (done, some (current.getD [] ++ [(char, false)]))) fields

/-- The fields of a word, before file names are put in for patterns. -/
def fields (run : List Char → Act Bytes) (word : Word) : Act (List Field) := do
  let start : List Field × Option Field := ([], none)
  let (done, current) ← word.foldlM (fun (done, current) piece => do
    match piece with
    | .parameter "@" true =>
      match (← frame).arguments.map fun argument => glyphs argument.toList true with
      | [] => return (done, current)
      | first :: rest =>
        let all := (current.getD [] ++ first) :: rest
        return (done ++ all.dropLast, all.getLast?)
    | .plain text => return (done, some (current.getD [] ++ glyphs text false))
    | piece =>
      let text ← pieceText run pieceDepth piece
      if pieceIsQuoted piece then return (done, some (current.getD [] ++ glyphs text true))
      else return addSplit (done, current) text) start
  return done ++ current.toList

/-- Cuts a field at its separators. -/
def splitField : Field → List Field
  | [] => [[]]
  | glyph :: rest =>
    if glyph.1 = '/' then [] :: splitField rest
    else
      match splitField rest with
      | [] => [[glyph]]
      | piece :: pieces => (glyph :: piece) :: pieces

/-- The paths that begin with `start` and go on as a pattern for each of their names says. -/
def matchPaths (files : Files) (base : Location) : String → List Field → List String
  | start, [] => [start]
  | start, field :: rest =>
    let goOn (name : String) : List String :=
      let path := start ++ name
      if rest.isEmpty then [path] else matchPaths files base (path ++ "/") rest
    if Pattern.isPattern field then
      let hidden := field.head?.any (·.1 = '.')
      let names := (files.list base (Octets.path (if start.isEmpty then "." else start))).toOption.getD []
      ((names.map Octets.ofRaw).filter fun name =>
        Pattern.accepts field name.toList && (hidden || name.toList.head? ≠ some '.')).flatMap goOn
    else goOn field.text

/-- The paths that a pattern accepts, sorted; without any, the pattern stays. -/
def matchNames (field : Field) : Act (List String) := do
  if !Pattern.isPattern field then return [field.text]
  let session ← get
  let files := session.files
  let base := session.frame.directory
  let paths := (matchPaths files base "" (splitField field)).filter fun path =>
    (files.lookup base (Octets.path path) false).toOption.any (· matches .occupied ..)
  return if paths.isEmpty then [field.text] else paths.mergeSort (· ≤ ·)

def expand (run : List Char → Act Bytes) (words : List Word) : Act (List String) := do
  let fields ← words.mapM (fields run)
  let names ← fields.flatten.mapM matchNames
  return names.flatten

end Act

end Assay.Host
