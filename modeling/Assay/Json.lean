/-!
# Documents

Reads the whole grammar and nothing more: no comments, no trailing commas, no leading zeros. Whether a
number or a text makes sense is left to whoever uses it, because parts of a document that nobody uses only
have to be well formed.
-/

namespace Assay

/-- A JSON document. Members keep their order and may repeat. A text is `none` where its escapes name
half of a surrogate pair, so that it has no characters. -/
inductive Json
  | null
  | bool (value : Bool)
  /-- A number without sign, fraction and exponent. -/
  | natural (value : Nat)
  | otherNumber
  | string (text : Option String)
  | array (items : List Json)
  | object (members : List (Option String × Json))

end Assay

namespace Assay.Json.Reader

/-- A reader takes what it can from the front of a text, or refuses the text. -/
abbrev Parse (α : Type) := List Char → Option (α × List Char)

def isSpace (char : Char) : Bool :=
  char = ' ' || char = '\n' || char = '\t' || char = '\r'

def skipSpace (text : List Char) : List Char :=
  text.dropWhile isSpace

def hexDigit? (char : Char) : Option Nat :=
  if '0' ≤ char ∧ char ≤ '9' then some (char.toNat - '0'.toNat)
  else if 'a' ≤ char ∧ char ≤ 'f' then some (char.toNat - 'a'.toNat + 10)
  else if 'A' ≤ char ∧ char ≤ 'F' then some (char.toNat - 'A'.toNat + 10)
  else none

def hexValue? (digits : List Char) : Option Nat :=
  digits.foldlM (fun value digit => (hexDigit? digit).map (16 * value + ·)) 0

def simpleEscape? : Char → Option Char
  | '"' => some '"'
  | '\\' => some '\\'
  | '/' => some '/'
  | 'b' => some '\x08'
  | 'f' => some '\x0c'
  | 'n' => some '\n'
  | 'r' => some '\r'
  | 't' => some '\t'
  | _ => none

/-- The code points of a string after its opening quote, halves of surrogate pairs among them. -/
def codePoints : Parse (List Nat)
  | '"' :: rest => some ([], rest)
  | '\\' :: 'u' :: a :: b :: c :: d :: rest => do
    let point ← hexValue? [a, b, c, d]
    let (points, rest) ← codePoints rest
    return (point :: points, rest)
  | '\\' :: escaped :: rest => do
    let char ← simpleEscape? escaped
    let (points, rest) ← codePoints rest
    return (char.toNat :: points, rest)
  | char :: rest =>
    if char.toNat < 0x20 then none
    else do
      let (points, rest) ← codePoints rest
      return (char.toNat :: points, rest)
  | [] => none

def isHighHalf (point : Nat) : Bool := 0xD800 ≤ point && point ≤ 0xDBFF

def isLowHalf (point : Nat) : Bool := 0xDC00 ≤ point && point ≤ 0xDFFF

/-- Joins the halves of surrogate pairs, and fails on a half that stands alone. -/
def characters? : List Nat → Option (List Char)
  | [] => some []
  | high :: low :: rest =>
    if isHighHalf high then
      if isLowHalf low then
        (characters? rest).map (Char.ofNat (0x10000 + (high - 0xD800) * 0x400 + (low - 0xDC00)) :: ·)
      else none
    else if isLowHalf high then none
    else (characters? (low :: rest)).map (Char.ofNat high :: ·)
  | [point] => if isHighHalf point || isLowHalf point then none else some [Char.ofNat point]

def text : Parse (Option String) := fun source => do
  let (points, rest) ← codePoints source
  return ((characters? points).map String.ofList, rest)

/-- One or more digits. -/
def digits : Parse (List Char) := fun source =>
  match source.takeWhile Char.isDigit with
  | [] => none
  | found => some (found, source.dropWhile Char.isDigit)

/-- The whole part of a number starts with a zero only if it is zero. -/
def whole : Parse Nat := fun source => do
  let (found, rest) ← digits source
  if found.head? = some '0' ∧ found ≠ ['0'] then none
  else return (found.foldl (fun value digit => 10 * value + (digit.toNat - '0'.toNat)) 0, rest)

def fraction : Parse Bool
  | '.' :: rest => (digits rest).map fun (_, rest) => (true, rest)
  | rest => some (false, rest)

def skipSign : List Char → List Char
  | '+' :: rest | '-' :: rest | rest => rest

def exponent : Parse Bool
  | 'e' :: rest | 'E' :: rest => (digits (skipSign rest)).map fun (_, rest) => (true, rest)
  | rest => some (false, rest)

def number : Parse Json := fun source => do
  let (negative, source) := match source with
    | '-' :: rest => (true, rest)
    | rest => (false, rest)
  let (value, rest) ← whole source
  let (hasFraction, rest) ← fraction rest
  let (hasExponent, rest) ← exponent rest
  return (if negative || hasFraction || hasExponent then .otherNumber else .natural value, rest)

def literal (word : String) (value : Json) : Parse Json := fun source =>
  (word.toList.isPrefixOf? source).map fun rest => (value, rest)

mutual

/-- Reads one value. `fuel` bounds how many values and separators are read, and the length of the text is
always enough. -/
def value : Nat → Parse Json
  | 0, _ => none
  | fuel + 1, source =>
    match skipSpace source with
    | '"' :: rest => (text rest).map fun (text, rest) => (.string text, rest)
    | '[' :: rest =>
      match skipSpace rest with
      | ']' :: rest => some (.array [], rest)
      | rest => (items fuel rest).map fun (items, rest) => (.array items, rest)
    | '{' :: rest =>
      match skipSpace rest with
      | '}' :: rest => some (.object [], rest)
      | rest => (members fuel rest).map fun (members, rest) => (.object members, rest)
    | 'n' :: rest => literal "null" .null ('n' :: rest)
    | 't' :: rest => literal "true" (.bool true) ('t' :: rest)
    | 'f' :: rest => literal "false" (.bool false) ('f' :: rest)
    | rest => number rest

/-- One or more values up to the closing bracket. -/
def items : Nat → Parse (List Json)
  | 0, _ => none
  | fuel + 1, source => do
    let (item, rest) ← value fuel source
    match skipSpace rest with
    | ',' :: rest =>
      let (more, rest) ← items fuel rest
      return (item :: more, rest)
    | ']' :: rest => return ([item], rest)
    | _ => none

/-- One or more members up to the closing brace. -/
def members : Nat → Parse (List (Option String × Json))
  | 0, _ => none
  | fuel + 1, source =>
    match skipSpace source with
    | '"' :: rest => do
      let (name, rest) ← text rest
      match skipSpace rest with
      | ':' :: rest =>
        let (member, rest) ← value fuel rest
        match skipSpace rest with
        | ',' :: rest =>
          let (more, rest) ← members fuel rest
          return ((name, member) :: more, rest)
        | '}' :: rest => return ([(name, member)], rest)
        | _ => none
      | _ => none
    | _ => none

end

end Assay.Json.Reader

namespace Assay

/-- Reads a whole document. -/
def Json.ofText? (source : String) : Option Json := do
  let (document, rest) ← Json.Reader.value (source.length + 1) source.toList
  if (Json.Reader.skipSpace rest).isEmpty then some document else none

end Assay
