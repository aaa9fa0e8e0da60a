import Assay.Host.Utility.Basic

namespace Assay.Host.Utility

open Act

def octalDigit? (char : Char) : Option Nat :=
  if '0' ≤ char ∧ char ≤ '7' then some (char.toNat - '0'.toNat) else none

def byte (value : Nat) : Bytes := ⟨#[value.toUInt8]⟩

def escapeChar? : Char → Option Char
  | 'a' => some '\x07'
  | 'b' => some '\x08'
  | 'f' => some '\x0c'
  | 'n' => some '\n'
  | 'r' => some '\r'
  | 't' => some '\t'
  | 'v' => some '\x0b'
  | '\\' => some '\\'
  | _ => none

/-- The octal digits that a backslash is followed by, three at most. -/
def octalDigits (source : List Char) : List Nat :=
  ((source.take 3).takeWhile fun char => (octalDigit? char).isSome).filterMap octalDigit?

/-- The bytes that a text with escapes stands for; octal digits after a backslash name one byte. -/
def unescape : List Char → Bytes
  | [] => ByteArray.empty
  | '\\' :: char :: rest =>
    match octalDigits (char :: rest), escapeChar? char with
    | first :: more, _ =>
      byte (more.foldl (fun value digit => 8 * value + digit) first) ++
        unescape (rest.drop more.length)
    | [], some meant => Octets.bytes (String.ofList [meant]) ++ unescape rest
    | [], none => Octets.bytes (String.ofList ['\\', char]) ++ unescape rest
  | char :: rest => Octets.bytes (String.ofList [char]) ++ unescape rest
termination_by source => source.length
decreasing_by all_goals simp only [List.length_cons, List.length_drop]; omega

/-- Prints its arguments with one blank between them. -/
def echo : Utility
  | "-n" :: words => do
    print (" ".intercalate words)
    return 0
  | words => do
    print (" ".intercalate words ++ "\n")
    return 0

/-- The echo of the shell reads escapes. -/
def shellEcho : Utility
  | "-n" :: words => do
    printBytes (unescape (" ".intercalate words).toList)
    return 0
  | words => do
    printBytes (unescape (" ".intercalate words ++ "\n").toList)
    return 0

/-- A conversion in a format, as in `%-5s` or `%03d`. -/
structure Conversion where
  flags : List Char
  width : Nat
  precision : Option Nat
  letter : Char

namespace Conversion

def number (digits : List Char) : Nat :=
  digits.foldl (fun value digit => 10 * value + (digit.toNat - '0'.toNat)) 0

/-- Reads a conversion from behind its percent sign, and says how long it is. -/
def read? (source : List Char) : Option (Conversion × Nat) :=
  let flags := source.takeWhile ['-', '+', ' ', '0', '#'].contains
  let rest := source.drop flags.length
  let width := rest.takeWhile Char.isDigit
  let rest := rest.drop width.length
  let point := rest.head? = some '.'
  let digits := if point then (rest.drop 1).takeWhile Char.isDigit else []
  let rest := rest.drop (if point then digits.length + 1 else 0)
  rest.head?.map fun letter =>
    ({ flags, width := number width, precision := if point then some (number digits) else none, letter },
      source.length - rest.length + 1)

def isNumeric (conversion : Conversion) : Bool :=
  ['d', 'i', 'u', 'x', 'X', 'o'].contains conversion.letter

/-- The text for an argument, as long as it is by itself. -/
def plainText (conversion : Conversion) (argument : String) : List Char :=
  let natural := argument.toNat?.getD 0
  match conversion.letter with
  | 'c' => argument.toList.take 1
  | 'x' => Nat.toDigits 16 natural
  | 'X' => (Nat.toDigits 16 natural).map Char.toUpper
  | 'o' => Nat.toDigits 8 natural
  | 'b' => (Octets.word (unescape argument.toList)).toList
  | _ =>
    if conversion.isNumeric then
      let sign := if conversion.flags.contains '+' ∧ argument.toList.head? ≠ some '-' then ['+'] else []
      sign ++ (toString (argument.toInt?.getD 0)).toList
    else argument.toList.take (conversion.precision.getD argument.length)

def text (conversion : Conversion) (argument : String) : List Char :=
  let plain := conversion.plainText argument
  let missing := conversion.width - plain.length
  if conversion.flags.contains '-' then plain ++ List.replicate missing ' '
  else if conversion.flags.contains '0' && conversion.isNumeric then
    let sign := plain.takeWhile ['-', '+'].contains
    sign ++ List.replicate missing '0' ++ plain.drop sign.length
  else List.replicate missing ' ' ++ plain

end Conversion

/-- Applies a format once, and hands over the arguments it did not use. -/
def format : Nat → List Char → List String → List Char × List String
  | 0, _, arguments | _, [], arguments => ([], arguments)
  | fuel + 1, '%' :: '%' :: rest, arguments =>
    let (text, left) := format fuel rest arguments
    ('%' :: text, left)
  | fuel + 1, '%' :: rest, arguments =>
    match Conversion.read? rest with
    | none => (['%'], arguments)
    | some (conversion, length) =>
      let (text, left) := format fuel (rest.drop length) (arguments.drop 1)
      (conversion.text (arguments.headD "") ++ text, left)
  | fuel + 1, char :: rest, arguments =>
    let (text, left) := format fuel rest arguments
    (char :: text, left)

/-- Applies a format for as long as it uses arguments up and there are some. -/
def formatAll : Nat → List Char → List String → List Char
  | 0, _, _ => []
  | fuel + 1, source, arguments =>
    let (text, left) := format (source.length + 1) source arguments
    if left.isEmpty || left.length = arguments.length then text
    else text ++ formatAll fuel source left

def printf : Utility
  | [] => do
    complain "printf: usage: printf format [arg ...]"
    return 2
  | source :: arguments => do
    let text := (Octets.word (unescape source.toList)).toList
    printBytes (Octets.bytes (String.ofList (formatAll (arguments.length + 1) text arguments)))
    return 0

def pwd : Utility := fun _ => do
  print (Octets.ofPath (← frame).directory.path ++ "\n")
  return 0

end Assay.Host.Utility
