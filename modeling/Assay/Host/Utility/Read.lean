import Assay.Host.Utility.Basic

namespace Assay.Host.Utility

open Act

def cat : Utility := fun words => do
  let operands := operandsOf words
  forOperands (if operands.isEmpty then ["-"] else operands) fun operand => do
    match ← readOperand operand with
    | .ok bytes =>
      printBytes bytes
      return true
    | .error fault =>
      blame "cat" operand fault
      return false

def countWords (bytes : Bytes) : Nat :=
  let isGap (byte : UInt8) : Bool := byte = 32 || (9 ≤ byte && byte ≤ 13)
  (bytes.toList.foldl (fun (count, gap) byte =>
    if isGap byte then (count, true) else (if gap then count + 1 else count, false)) (0, true)).1

def wc : Utility := fun words => do
  let operands := operandsOf words
  forOperands (if operands.isEmpty then ["-"] else operands) fun operand => do
    match ← readOperand operand with
    | .error fault =>
      blame "wc" operand fault
      return false
    | .ok bytes =>
      let lines := bytes.toList.countP (· = 10)
      let counts :=
        (if hasOption words 'l' then [lines] else []) ++
        (if hasOption words 'w' then [countWords bytes] else []) ++
        (if hasOption words 'c' then [bytes.size] else [])
      let counts := if counts.isEmpty then [lines, countWords bytes, bytes.size] else counts
      let name := if operand = "-" then [] else [operand]
      print (" ".intercalate (counts.map Nat.repr ++ name) ++ "\n")
      return true

def ls : Utility := fun words => do
  let operands := operandsOf words
  let status ← forOperands (if operands.isEmpty then ["."] else operands) fun operand => do
    match ← query fun files base => files.list base (Octets.path operand) with
    | .ok names =>
      let seen := (names.map Octets.ofRaw).filter fun name => name.toList.head? ≠ some '.'
      for name in seen.mergeSort (· ≤ ·) do
        print (name ++ "\n")
      return true
    | .error .notADirectory =>
      print (operand ++ "\n")
      return true
    | .error fault =>
      blame "ls" operand fault
      return false
  return 2 * status

/-- Reads a count in front of the operands: `-3`, `-n3`, or `-n` with the count behind it. -/
def count? : List String → Option (Char × Nat × List String)
  | [] => none
  | word :: rest =>
    match word.toList with
    | '-' :: digits =>
      let attached (letter : Char) (digits : List Char) : Option (Char × Nat × List String) :=
        (String.ofList digits).toNat?.map fun count => (letter, count, rest)
      match attached 'n' digits, digits, rest with
      | some found, _, _ => some found
      | none, [letter], value :: rest => value.toNat?.map fun count => (letter, count, rest)
      | none, letter :: digits, _ => attached letter digits
      | none, [], _ => none
    | _ => none

/-- The lines of a text with what ends them. -/
def wholeLines (bytes : Bytes) : List Bytes :=
  let (lines, last) := bytes.toList.foldl (fun (lines, current) byte =>
    if byte = 10 then (lines ++ [current ++ [byte]], []) else (lines, current ++ [byte]))
    (([] : List (List UInt8)), ([] : List UInt8))
  (lines ++ if last.isEmpty then [] else [last]).map fun line => ⟨line.toArray⟩

def joinBytes (parts : List Bytes) : Bytes := parts.foldl (· ++ ·) ByteArray.empty

/-- Prints a part of each of its inputs, which has a number of lines or bytes. -/
def excerpt (utility : String) (ofLines : Nat → List Bytes → List Bytes)
    (ofBytes : Nat → Bytes → Bytes) : Utility := fun words => do
  let (letter, count, operands) := (count? words).getD ('n', 10, words)
  forOperands (if operands.isEmpty then ["-"] else operands) fun operand => do
    match ← readOperand operand with
    | .ok bytes =>
      printBytes (if letter = 'c' then ofBytes count bytes
        else joinBytes (ofLines count (wholeLines bytes)))
      return true
    | .error fault =>
      blame utility operand fault
      return false

def head : Utility :=
  excerpt "head" List.take fun count bytes => bytes.extract 0 count

def tail : Utility :=
  excerpt "tail" (fun count lines => lines.drop (lines.length - count)) fun count bytes =>
    bytes.extract (bytes.size - count) bytes.size

/-- Prints what it reads, and writes it to its operands too. -/
def tee : Utility := fun words => do
  let bytes := ((← readOperand "-").toOption).getD ByteArray.empty
  printBytes bytes
  let mode : OpenMode := if hasOption words 'a' then .append else .truncate
  forOperands (operandsOf words) fun operand => do
    settle "tee" operand false (← alter fun files base => do
      let (stream, files) ← files.openStream base (Octets.path operand) mode
      return files.write stream bytes)

/-- Counts from a first number to a last one. -/
def seq : Utility := fun words => do
  let range : Option (Int × Int × Int) :=
    match words.mapM String.toInt? with
    | some [last] => some (1, 1, last)
    | some [first, last] => some (first, 1, last)
    | some [first, step, last] => if step = 0 then none else some (first, step, last)
    | _ => none
  match range with
  | none =>
    complain "seq: invalid argument"
    return 1
  | some (first, step, last) =>
    let turns := ((last - first) / step + 1).toNat
    for turn in List.range turns do
      print (toString (first + turn * step) ++ "\n")
    return 0

def sort : Utility := fun words => do
  let operands := operandsOf words
  let texts ← (if operands.isEmpty then ["-"] else operands).mapM fun operand => do
    return Text.lines ((((← readOperand operand).toOption.map Octets.word).getD "").toList)
  let lines := (texts.flatten.map String.ofList).mergeSort (· ≤ ·)
  let unique := if hasOption words 'u' then lines.eraseDups else lines
  for line in if hasOption words 'r' then unique.reverse else unique do
    print (line ++ "\n")
  return 0

def basename : Utility := fun words => do
  match words with
  | [] => missingOperand "basename"
  | path :: suffixes =>
    let name := (((Octets.path path).segments.getLast?).map Octets.ofRaw).getD path
    let suffix := (suffixes.headD "").toList
    let cut := suffix.isSuffixOf name.toList ∧ suffix ≠ name.toList
    print (String.ofList (if cut then name.toList.take (name.length - suffix.length)
      else name.toList) ++ "\n")
    return 0

def dirname : Utility := fun words => do
  match words with
  | [] => missingOperand "dirname"
  | path :: _ =>
    let segments := ((Octets.path path).segments.map Octets.ofRaw).dropLast
    let start := if (Octets.path path).isAbsolute then "/" else if segments.isEmpty then "." else ""
    print (start ++ "/".intercalate segments ++ "\n")
    return 0

end Assay.Host.Utility
