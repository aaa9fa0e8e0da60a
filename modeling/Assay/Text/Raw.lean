/-!
# Raw texts

The system takes any bytes for a name, whether they encode a text or not. Where a name goes into a command or
a message it is shown as a text, with U+FFFD in place of what encodes no character.
-/

namespace Assay

/-- A text as the system has it. -/
structure RawText where
  bytes : List UInt8
deriving DecidableEq, Repr, Inhabited

namespace RawText

/-- The UTF-8 encoding of a text. -/
def ofText (text : String) : RawText := ⟨text.toUTF8.data.toList⟩

instance : Coe String RawText := ⟨ofText⟩

instance : Append RawText := ⟨fun left right => ⟨left.bytes ++ right.bytes⟩⟩

def isEmpty (text : RawText) : Bool := text.bytes.isEmpty

/-- How many bytes a text takes up. -/
def size (text : RawText) : Nat := text.bytes.length

def intercalate (separator : RawText) (texts : List RawText) : RawText :=
  ⟨List.intercalate separator.bytes (texts.map bytes)⟩

/-- A byte that goes on with the encoding of a character and begins none. -/
def isContinuation (byte : UInt8) : Bool := 0x80 ≤ byte && byte < 0xC0

/-- Cuts bytes in front of each that is no continuation. -/
def pieces : List UInt8 → List (List UInt8)
  | [] => []
  | byte :: rest =>
    match pieces rest with
    | [] => [[byte]]
    | piece :: others =>
      if piece.head?.any isContinuation then (byte :: piece) :: others else [byte] :: piece :: others

/-- The continuations that may follow a first byte, from the least to the greatest. Others would spell out a
character in more bytes than it needs, or one that there is not. -/
def continuations (first : UInt8) : Option (UInt8 × UInt8) :=
  if first < 0xC2 ∨ 0xF4 < first then none
  else if first = 0xE0 then some (0xA0, 0xBF)
  else if first = 0xED then some (0x80, 0x9F)
  else if first = 0xF0 then some (0x90, 0xBF)
  else if first = 0xF4 then some (0x80, 0x8F)
  else some (0x80, 0xBF)

def replacement : Char := '\uFFFD'

/-- Shows a byte with the continuations behind it. A character may have too many of them, and the encoding of
one may break off; that part counts once, and everything else byte by byte. -/
def showPiece (piece : List UInt8) : List Char :=
  match ByteArray.utf8DecodeChar? ⟨piece.toArray⟩ 0, piece with
  | some char, _ => char :: List.replicate (piece.length - char.utf8Size) replacement
  | none, first :: second :: _ =>
    if (continuations first).any fun (least, greatest) => least ≤ second && second ≤ greatest then [replacement]
    else List.replicate piece.length replacement
  | none, _ => List.replicate piece.length replacement

/-- The text that a raw text is shown as. -/
def lossy (text : RawText) : String := String.ofList ((pieces text.bytes).flatMap showPiece)

example : lossy ⟨[0xFF, 0x2E, 0x70]⟩ = "\uFFFD.p" ∧ lossy ⟨[0xE2, 0x82, 0x2E]⟩ = "\uFFFD." ∧ lossy "é." = "é." := by
  decide

end RawText

end Assay
