import Assay.Json
import Mathlib.Data.List.Basic

/-!
# Documents that are written down

A number is read as what it was before it was written in decimal digits, as long as nothing follows that could belong
to it. What is written without spaces is read piece by piece, with one unit of fuel for each level, and a whole document
is read with more fuel than it takes, so that there can be some left over.
-/

namespace Assay.Json.Reader

theorem isDigit_of_mem_toDigits {n : Nat} {digit : Char} (h : digit ∈ Nat.toDigits 10 n) :
    digit.isDigit = true :=
  Nat.isDigit_of_mem_toDigits (by decide) (by decide) h

/-- Only zero is written with a zero in front. -/
theorem eq_zero_of_head?_toDigits {n : Nat} (h : (Nat.toDigits 10 n).head? = some '0') : n = 0 := by
  induction n using Nat.strongRecOn with
  | ind n ih =>
      by_cases hsmall : n < 10
      · have hdigits : Nat.toDigits 10 n = [Nat.digitChar n] := by
          rw [Nat.toDigits_eq_if (by decide), if_pos hsmall]
        have hdigit : Nat.digitChar n = '0' := by
          rw [hdigits] at h
          exact Option.some.inj h
        have hvalue : Nat.ofDigitChars 10 (Nat.toDigits 10 n) 0 = n := Nat.ofDigitChars_ten_toDigits
        rw [hdigits, hdigit] at hvalue
        exact hvalue.symm
      · rw [Nat.toDigits_eq_if (by decide), if_neg hsmall,
          List.head?_append_of_ne_nil _ Nat.toDigits_ne_nil] at h
        have hnone := ih (n / 10) (by omega) h
        omega

theorem digits_toDigits (n : Nat) {next : Char} (hnext : next.isDigit = false) (rest : List Char) :
    digits (Nat.toDigits 10 n ++ next :: rest) = some (Nat.toDigits 10 n, next :: rest) := by
  have hall : ∀ digit ∈ Nat.toDigits 10 n, digit.isDigit = true := fun _ => isDigit_of_mem_toDigits
  have htake : (Nat.toDigits 10 n ++ next :: rest).takeWhile Char.isDigit = Nat.toDigits 10 n := by
    rw [List.takeWhile_append_of_pos hall, List.takeWhile_cons_of_neg (by simp [hnext]), List.append_nil]
  have hdrop : (Nat.toDigits 10 n ++ next :: rest).dropWhile Char.isDigit = next :: rest := by
    rw [List.dropWhile_append_of_pos hall, List.dropWhile_cons_of_neg (by simp [hnext])]
  rw [digits, htake, hdrop]
  split
  · next hnil => exact absurd hnil Nat.toDigits_ne_nil
  · rfl

theorem whole_toDigits (n : Nat) {next : Char} (hnext : next.isDigit = false) (rest : List Char) :
    whole (Nat.toDigits 10 n ++ next :: rest) = some (n, next :: rest) := by
  have hvalue : (Nat.toDigits 10 n).foldl (fun value digit => 10 * value + (digit.toNat - '0'.toNat)) 0 = n :=
    Nat.ofDigitChars_ten_toDigits
  have hzero : ¬ ((Nat.toDigits 10 n).head? = some '0' ∧ Nat.toDigits 10 n ≠ ['0']) := by
    rintro ⟨hhead, hmore⟩
    rw [eq_zero_of_head?_toDigits hhead] at hmore
    exact hmore rfl
  simp only [whole, digits_toDigits n hnext, Option.bind_eq_bind, Option.bind_some, if_neg hzero, hvalue]
  rfl

/-- No part of a number begins with this character. -/
structure EndsNumber (next : Char) : Prop where
  not_digit : next.isDigit = false
  not_point : next ≠ '.'
  not_exponent : next ≠ 'e' ∧ next ≠ 'E'

theorem number_toDigits (n : Nat) {next : Char} (hnext : EndsNumber next) (rest : List Char) :
    number (Nat.toDigits 10 n ++ next :: rest) = some (.natural n, next :: rest) := by
  have hfraction : fraction (next :: rest) = some (false, next :: rest) := by
    unfold fraction
    split
    · next heq => exact absurd (List.cons.inj heq).1 hnext.not_point
    · rfl
  have hexponent : exponent (next :: rest) = some (false, next :: rest) := by
    unfold exponent
    split
    · next heq => exact absurd (List.cons.inj heq).1 hnext.not_exponent.1
    · next heq => exact absurd (List.cons.inj heq).1 hnext.not_exponent.2
    · rfl
  obtain ⟨first, others, hdigits⟩ := List.exists_cons_of_ne_nil (@Nat.toDigits_ne_nil n 10)
  have hwhole := whole_toDigits n hnext.not_digit rest
  have hfirst : first.isDigit = true :=
    isDigit_of_mem_toDigits (by rw [hdigits]; exact List.mem_cons_self ..)
  rw [hdigits, List.cons_append] at hwhole ⊢
  unfold number
  split
  next negative source heq =>
    split at heq
    · next hsign =>
        rw [(List.cons.inj hsign).1] at hfirst
        exact absurd hfirst (by decide)
    · cases heq
      simp only [hwhole, hfraction, hexponent, Option.bind_eq_bind, Option.bind_some]
      rfl

theorem value_toDigits (fuel n : Nat) {next : Char} (hnext : EndsNumber next) (rest : List Char) :
    value (fuel + 1) (Nat.toDigits 10 n ++ next :: rest) = some (.natural n, next :: rest) := by
  obtain ⟨first, others, hdigits⟩ := List.exists_cons_of_ne_nil (@Nat.toDigits_ne_nil n 10)
  have hnumber := number_toDigits n hnext rest
  have hfirst : first.isDigit = true :=
    isDigit_of_mem_toDigits (by rw [hdigits]; exact List.mem_cons_self ..)
  have hspace : isSpace first = false := by
    by_contra hspace
    simp only [isSpace, Bool.not_eq_false, Bool.or_eq_true, decide_eq_true_eq] at hspace
    rcases hspace with ((rfl | rfl) | rfl) | rfl <;> exact absurd hfirst (by decide)
  rw [hdigits, List.cons_append] at hnumber ⊢
  have hskip : skipSpace (first :: (others ++ next :: rest)) = first :: (others ++ next :: rest) :=
    List.dropWhile_cons_of_neg (by simp [hspace])
  unfold value
  rw [hskip]
  split
  all_goals first
    | exact hnumber
    | next heq =>
        rw [(List.cons.inj heq).1] at hfirst
        exact absurd hfirst (by decide)

/-! ### Values without spaces in between -/

section

variable {fuel : Nat} {source afterName afterValue rest : List Char} {name found : Option String} {item member : Json}
  {entries more : List (Option String × Json)} {found' : List Json}

theorem value_string (htext : text source = some (found, rest)) :
    value (fuel + 1) ('"' :: source) = some (.string found, rest) := by
  have hvalue : value (fuel + 1) ('"' :: source) =
    (text source).map fun read => (.string read.1, read.2) := rfl
  rw [hvalue, htext]
  rfl

theorem value_object (hmembers : members fuel ('"' :: source) = some (entries, rest)) :
    value (fuel + 1) ('\x7b' :: '"' :: source) = some (.object entries, rest) := by
  have hvalue : value (fuel + 1) ('\x7b' :: '"' :: source) =
    (members fuel ('"' :: source)).map fun read => (.object read.1, read.2) := rfl
  rw [hvalue, hmembers]
  rfl

/-- An array whose first item is an object. -/
theorem value_array (hitems : items fuel ('\x7b' :: source) = some (found', rest)) :
    value (fuel + 1) ('[' :: '\x7b' :: source) = some (.array found', rest) := by
  have hvalue : value (fuel + 1) ('[' :: '\x7b' :: source) =
    (items fuel ('\x7b' :: source)).map fun read => (.array read.1, read.2) := rfl
  rw [hvalue, hitems]
  rfl

theorem items_last (hvalue : value fuel source = some (item, ']' :: rest)) :
    items (fuel + 1) source = some ([item], rest) := by
  rw [items, hvalue]
  rfl

theorem members_last (hname : text source = some (name, ':' :: afterName))
    (hvalue : value fuel afterName = some (member, '\x7d' :: rest)) :
    members (fuel + 1) ('"' :: source) = some ([(name, member)], rest) := by
  have hquote : skipSpace ('"' :: source) = '"' :: source := rfl
  have hcolon : skipSpace (':' :: afterName) = ':' :: afterName := rfl
  rw [members, hquote]
  simp only [hname, hcolon, hvalue, Option.bind_eq_bind, Option.bind_some]
  rfl

theorem members_more (hname : text source = some (name, ':' :: afterName))
    (hvalue : value fuel afterName = some (member, ',' :: afterValue))
    (hmore : members fuel afterValue = some (more, rest)) :
    members (fuel + 1) ('"' :: source) = some ((name, member) :: more, rest) := by
  have hquote : skipSpace ('"' :: source) = '"' :: source := rfl
  have hcolon : skipSpace (':' :: afterName) = ':' :: afterName := rfl
  have hcomma : skipSpace (',' :: afterValue) = ',' :: afterValue := rfl
  rw [members, hquote]
  simp only [hname, hcolon, hvalue, hcomma, hmore, Option.bind_eq_bind, Option.bind_some]
  rfl

end

end Assay.Json.Reader

namespace Assay.Json

theorem ofText?_of_value {source : String} {document : Json} {depth : Nat}
    (hdepth : depth ≤ source.toList.length + 1)
    (hvalue : ∀ fuel, Reader.value (fuel + depth) source.toList = some (document, [])) :
    ofText? source = some document := by
  obtain ⟨fuel, hfuel⟩ := Nat.exists_eq_add_of_le' hdepth
  rw [String.length_toList] at hfuel
  simp only [ofText?, hfuel, hvalue, Option.bind_eq_bind, Option.bind_some]
  rfl

end Assay.Json
