namespace Assay.Text

/-- What stands before and after the first occurrence of `separator`. -/
def splitOnce (separator : List Char) : List Char → Option (List Char × List Char)
  | [] => if separator.isEmpty then some ([], []) else none
  | char :: rest =>
    match separator.isPrefixOf? (char :: rest) with
    | some after => some ([], after)
    | none => (splitOnce separator rest).map fun (before, after) => (char :: before, after)

/-- The pieces between the elements equal to `separator`; there is always one more piece than there
are separators. -/
def splitAll {α : Type} [DecidableEq α] (separator : α) : List α → List (List α)
  | [] => [[]]
  | element :: rest =>
    if element = separator then
      [] :: splitAll separator rest
    else
      match splitAll separator rest with
      | [] => [[element]]
      | piece :: pieces => (element :: piece) :: pieces

def dropCarriageReturn (line : List Char) : List Char :=
  if line.getLast? = some '\r' then line.dropLast else line

/-- The lines of a text, each ended by a line feed or by a carriage return and a line feed. The last
line may lack its ending, and then keeps a carriage return. -/
def lines (text : List Char) : List (List Char) :=
  let pieces := splitAll '\n' text
  let ended := pieces.dropLast.map dropCarriageReturn
  match pieces.getLast? with
  | none | some [] => ended
  | some rest => ended ++ [rest]

def contains (part : List Char) (whole : List Char) : Bool :=
  (splitOnce part whole).isSome

example : lines "a\r\n\nb".toList = ["a".toList, [], "b".toList] := by decide
example : lines "a\n".toList = ["a".toList] ∧ lines "a\r".toList = ["a\r".toList] := by decide

/-- The code points with the Unicode property White_Space, as inclusive ranges. -/
def blankRanges : List (Nat × Nat) :=
  [(0x0009, 0x000D), (0x0020, 0x0020), (0x0085, 0x0085), (0x00A0, 0x00A0), (0x1680, 0x1680),
    (0x2000, 0x200A), (0x2028, 0x2029), (0x202F, 0x202F), (0x205F, 0x205F), (0x3000, 0x3000)]

def isBlank (char : Char) : Bool :=
  blankRanges.any fun range => range.1 ≤ char.toNat && char.toNat ≤ range.2

def trimStart (text : List Char) : List Char :=
  text.dropWhile isBlank

def trimEnd (text : List Char) : List Char :=
  (text.reverse.dropWhile isBlank).reverse

example : isBlank ' ' ∧ isBlank '\t' ∧ isBlank '\u3000' ∧ ¬ isBlank '\u200b' ∧ ¬ isBlank 'x' := by
  decide

end Assay.Text
