import Assay.Text.Split
import Mathlib.Data.List.Basic
import Mathlib.Data.List.TakeWhile

/-!
# Splitting a text that was put together

A text that ends with a line is one to which another line can be added without any of the lines before it
changing. Everything that is read back from a log rests on this.
-/

namespace Assay.Text

/-- No line of the text is still open. -/
def IsClosed (text : List Char) : Prop :=
  text = [] ∨ text.getLast? = some '\n'

/-! ### Pieces -/

section Pieces

variable {α : Type} [DecidableEq α]

theorem splitAll_ne_nil (separator : α) (text : List α) : splitAll separator text ≠ [] := by
  cases text with
  | nil => simp [splitAll]
  | cons char rest =>
      rw [splitAll]
      split
      · simp
      · split <;> simp

theorem splitAll_append (separator : α) (text rest : List α) :
    splitAll separator (text ++ separator :: rest) =
      splitAll separator text ++ splitAll separator rest := by
  induction text with
  | nil => simp [splitAll]
  | cons char text ih =>
      by_cases heq : char = separator
      · simp [splitAll, heq, ih]
      · simp only [List.cons_append, splitAll, heq, if_false, ih]
        cases hpieces : splitAll separator text with
        | nil => exact absurd hpieces (splitAll_ne_nil separator text)
        | cons piece pieces => rfl

theorem splitAll_of_not_mem {separator : α} {text : List α} (h : separator ∉ text) :
    splitAll separator text = [text] := by
  induction text with
  | nil => rfl
  | cons char text ih =>
      obtain ⟨hchar, htext⟩ := List.ne_and_not_mem_of_not_mem_cons h
      simp [splitAll, Ne.symm hchar, ih htext]

theorem splitAll_append_of_not_mem {separator : α} {before : List α} (h : separator ∉ before)
    (rest : List α) :
    ∃ first later, splitAll separator rest = first :: later ∧
      splitAll separator (before ++ rest) = (before ++ first) :: later := by
  induction before with
  | nil =>
      cases hpieces : splitAll separator rest with
      | nil => exact absurd hpieces (splitAll_ne_nil separator rest)
      | cons first later => exact ⟨first, later, rfl, hpieces⟩
  | cons char before ih =>
      obtain ⟨hne, hbefore⟩ := List.ne_and_not_mem_of_not_mem_cons h
      obtain ⟨first, later, hrest, hall⟩ := ih hbefore
      refine ⟨first, later, hrest, ?_⟩
      rw [List.cons_append, splitAll, if_neg (Ne.symm hne), hall]
      rfl

theorem not_mem_of_mem_splitAll {separator : α} {text piece : List α}
    (h : piece ∈ splitAll separator text) : separator ∉ piece := by
  induction text generalizing piece with
  | nil =>
      rw [splitAll] at h
      rw [List.mem_singleton.mp h]
      exact List.not_mem_nil
  | cons char text ih =>
      rw [splitAll] at h
      by_cases heq : char = separator
      · rw [if_pos heq] at h
        rcases List.mem_cons.mp h with rfl | hlater
        · exact List.not_mem_nil
        · exact ih hlater
      · rw [if_neg heq] at h
        cases hpieces : splitAll separator text with
        | nil => exact absurd hpieces (splitAll_ne_nil separator text)
        | cons first later =>
            rw [hpieces] at h ih
            rcases List.mem_cons.mp h with rfl | hlater
            · exact List.not_mem_cons_of_ne_of_not_mem (Ne.symm heq) (ih (List.mem_cons_self ..))
            · exact ih (List.mem_cons_of_mem _ hlater)

end Pieces

/-! ### Lines -/

theorem lines_append_newline (text rest : List Char) :
    lines (text ++ '\n' :: rest) = (splitAll '\n' text).map dropCarriageReturn ++ lines rest := by
  have hne := splitAll_ne_nil '\n' rest
  simp only [lines, splitAll_append]
  rw [List.dropLast_append_of_ne_nil hne, List.map_append, List.getLast?_append_of_ne_nil _ hne]
  rcases (splitAll '\n' rest).getLast? with _ | ⟨_ | ⟨char, piece⟩⟩ <;> simp

theorem lines_append {text : List Char} (h : IsClosed text) (rest : List Char) :
    lines (text ++ rest) = lines text ++ lines rest := by
  rcases h with rfl | hlast
  · rfl
  · obtain ⟨body, rfl⟩ := List.getLast?_eq_some_iff.mp hlast
    have hbody := lines_append_newline body []
    rw [List.append_assoc, List.singleton_append, lines_append_newline, hbody]
    simp [lines, splitAll]

theorem lines_of_not_mem {line : List Char} (h : '\n' ∉ line) :
    lines (line ++ ['\n']) = [dropCarriageReturn line] := by
  rw [lines_append_newline, splitAll_of_not_mem h]
  rfl

/-! ### The first separator -/

theorem splitOnce_append {char : Char} (more : List Char) {before : List Char} (h : char ∉ before)
    (rest : List Char) :
    splitOnce (char :: more) (before ++ (char :: more ++ rest)) = some (before, rest) := by
  induction before with
  | nil =>
      have hstart : (char :: more).isPrefixOf? (char :: more ++ rest) = some rest :=
        List.isPrefixOf?_eq_some_iff_append_eq.mpr rfl
      simp only [List.nil_append, List.cons_append, splitOnce] at hstart ⊢
      rw [hstart]
  | cons first before ih =>
      obtain ⟨hne, hbefore⟩ := List.ne_and_not_mem_of_not_mem_cons h
      have hstart : (char :: more).isPrefixOf? (first :: before ++ (char :: more ++ rest)) = none := by
        simp [List.isPrefixOf?, hne]
      simp only [List.cons_append, splitOnce] at hstart ih ⊢
      rw [hstart, ih hbefore]
      rfl

theorem eq_append_of_splitOnce {separator text before after : List Char}
    (h : splitOnce separator text = some (before, after)) :
    text = before ++ (separator ++ after) := by
  induction text generalizing before with
  | nil =>
      rw [splitOnce] at h
      split at h
      · next hempty =>
        cases h
        rw [List.isEmpty_iff.mp hempty]
        rfl
      · cases h
  | cons char text ih =>
      rw [splitOnce] at h
      split at h
      · next rest hrest =>
        cases h
        exact (List.isPrefixOf?_eq_some_iff_append_eq.mp hrest).symm
      · obtain ⟨⟨first, rest⟩, hrest, heq⟩ := Option.map_eq_some_iff.mp h
        cases heq
        rw [ih hrest]
        rfl

theorem not_mem_of_splitOnce {char : Char} {text before after : List Char}
    (h : splitOnce [char] text = some (before, after)) : char ∉ before := by
  induction text generalizing before with
  | nil => cases h
  | cons first text ih =>
      rw [splitOnce] at h
      split at h
      · cases h
        exact List.not_mem_nil
      · next hfirst =>
        obtain ⟨⟨others, rest⟩, hrest, heq⟩ := Option.map_eq_some_iff.mp h
        cases heq
        have hne : char ≠ first := by
          rintro rfl
          simp [List.isPrefixOf?] at hfirst
        exact List.not_mem_cons_of_ne_of_not_mem hne (ih hrest)

/-! ### Blanks at the ends -/

/-- What is left of a text that is trimmed is what stands before the blanks at its end. -/
theorem trimEnd_eq_iff {text body : List Char} :
    trimEnd text = body ↔
      (∃ blanks, (∀ char ∈ blanks, isBlank char = true) ∧ text = body ++ blanks) ∧
        ∀ last, body.getLast? = some last → isBlank last = false := by
  constructor
  · rintro rfl
    refine ⟨⟨(text.reverse.takeWhile isBlank).reverse, fun char hchar => ?_, ?_⟩, fun last hlast => ?_⟩
    · exact List.mem_takeWhile_imp (List.mem_reverse.mp hchar)
    · rw [trimEnd, ← List.reverse_append, List.takeWhile_append_dropWhile, List.reverse_reverse]
    · rw [trimEnd, List.getLast?_reverse] at hlast
      have hkept := List.head?_dropWhile_not isBlank text.reverse
      rw [hlast] at hkept
      simpa using hkept
  · rintro ⟨⟨blanks, hblanks, rfl⟩, hlast⟩
    have hblanks' : ∀ char ∈ blanks.reverse, isBlank char = true := fun char hchar =>
      hblanks char (List.mem_reverse.mp hchar)
    rw [trimEnd, List.reverse_append, List.dropWhile_append_of_pos hblanks', List.reverse_eq_iff]
    rw [← List.head?_reverse] at hlast
    cases hbody : body.reverse with
    | nil => rfl
    | cons last before =>
        rw [hbody] at hlast
        simp [hlast last rfl]

theorem trimEnd_of_getLast? {text : List Char} {last : Char} (hlast : text.getLast? = some last)
    (h : isBlank last = false) : trimEnd text = text := by
  refine trimEnd_eq_iff.mpr ⟨⟨[], nofun, (List.append_nil text).symm⟩, fun other hother => ?_⟩
  rw [hlast] at hother
  exact Option.some.inj hother ▸ h

theorem trimEnd_prefix (text : List Char) : trimEnd text <+: text := by
  obtain ⟨⟨blanks, -, htext⟩, -⟩ := trimEnd_eq_iff.mp (rfl : trimEnd text = _)
  exact ⟨blanks, htext.symm⟩

theorem dropCarriageReturn_of_getLast? {text : List Char} {last : Char}
    (hlast : text.getLast? = some last) (h : last ≠ '\r') : dropCarriageReturn text = text := by
  rw [dropCarriageReturn, if_neg]
  simpa [hlast] using h

theorem trimEnd_append_cons {char : Char} (h : isBlank char = false) (before rest : List Char) :
    trimEnd (before ++ char :: rest) = before ++ char :: trimEnd rest := by
  have hreverse : (before ++ char :: rest).reverse = rest.reverse ++ char :: before.reverse := by
    simp
  rw [trimEnd, trimEnd, hreverse, List.dropWhile_append]
  cases hblank : rest.reverse.dropWhile isBlank with
  | nil => simp [h]
  | cons last others => simp

theorem dropCarriageReturn_append_cons {char : Char} (h : char ≠ '\r') (before rest : List Char) :
    dropCarriageReturn (before ++ char :: rest) = before ++ char :: dropCarriageReturn rest := by
  rcases rest with _ | ⟨next, rest⟩
  · simp [dropCarriageReturn, h]
  have hne : next :: rest ≠ [] := List.cons_ne_nil next rest
  have hsplit : before ++ char :: next :: rest = (before ++ [char]) ++ (next :: rest) := by simp
  rw [hsplit, dropCarriageReturn, dropCarriageReturn, List.getLast?_append_of_ne_nil _ hne,
    List.dropLast_append_of_ne_nil hne]
  split
  · simp
  · simp

end Assay.Text
