namespace Assay

structure Duration where
  nanoseconds : Nat
deriving DecidableEq, Repr, Inhabited

namespace Duration

def ofSeconds (count : Nat) : Duration := ⟨count * 1000000000⟩

def ofMilliseconds (count : Nat) : Duration := ⟨count * 1000000⟩

def wholeMilliseconds (duration : Duration) : Nat := duration.nanoseconds / 1000000

/-- The decimal digits of `part / 10 ^ places` after the point, without trailing zeros. -/
def fractionDigits (places part : Nat) : List Char :=
  let digits := (Nat.repr part).toList
  let padded := List.replicate (places - digits.length) '0' ++ digits
  (padded.reverse.dropWhile (· = '0')).reverse

def amount (places value : Nat) : String :=
  let whole := value / Nat.pow 10 places
  match fractionDigits places (value % Nat.pow 10 places) with
  | [] => Nat.repr whole
  | digits => Nat.repr whole ++ "." ++ String.ofList digits

/-- A duration is shown in the largest of `s`, `ms`, `µs` and `ns` that it reaches. -/
def text (duration : Duration) : String :=
  if 1000000000 ≤ duration.nanoseconds then amount 9 duration.nanoseconds ++ "s"
  else if 1000000 ≤ duration.nanoseconds then amount 6 duration.nanoseconds ++ "ms"
  else if 1000 ≤ duration.nanoseconds then amount 3 duration.nanoseconds ++ "µs"
  else Nat.repr duration.nanoseconds ++ "ns"

end Duration

example : (Duration.ofMilliseconds 1500).text = "1.5s" := by decide
example : (Duration.mk 1001).text = "1.001µs" ∧ (Duration.mk 0).text = "0ns" := by decide

end Assay
