import Assay.Proofs.Record.RoundTrip
import Mathlib.Data.Set.Function

/-!
# What reads as an outcome line

Reading a line cuts it up from the left, and every cut can fail. What is accepted in the end can be said without
any of the cuts: the line is a verdict, a label in brackets and perhaps a command in quotes, with blanks in two
places where they do not count. There is only one way to see a line like that, as a verdict has no colon in it, a
label no closing bracket, and a gap no quote.
-/

namespace Assay

namespace Record

/-- What stands at the end of a line: nothing, or the command in quotes. -/
def quoted : Option String → List Char
  | none => []
  | some command => '"' :: (command.toList ++ ['"'])

/-- Without the blanks at its end, the line is made up of the parts of the record, with a gap of blanks before
the command. -/
structure Spells (line : String) (record : Record) (gap : List Char) : Prop where
  label : ']' ∉ record.label.toList
  blank : ∀ char ∈ gap, Text.isBlank char = true
  whole : Text.trimEnd line.toList =
    subject record.verdict record.label ++ (gap ++ quoted record.command)

/-! ### The command -/

theorem unquote?_eq_some_iff {text command : List Char} :
    unquote? text = some command ↔ text = '"' :: (command ++ ['"']) := by
  constructor
  · intro h
    unfold unquote? at h
    split at h
    · next rest =>
      obtain ⟨hlast, heq⟩ := Option.ite_none_right_eq_some.mp h
      obtain ⟨before, rfl⟩ := List.getLast?_eq_some_iff.mp hlast
      rw [List.dropLast_concat] at heq
      rw [Option.some.inj heq]
    · cases h
  · rintro rfl
    simp [unquote?]

theorem trimStart_quoted {gap : List Char} (hblank : ∀ char ∈ gap, Text.isBlank char = true)
    (command : Option String) : Text.trimStart (gap ++ quoted command) = quoted command := by
  have hquote : Text.isBlank '"' = false := by decide
  rw [Text.trimStart, List.dropWhile_append_of_pos hblank]
  cases command with
  | none => rfl
  | some command => simp [quoted, hquote]

theorem parseCommand?_eq_some_iff {text : List Char} {command : Option String} :
    parseCommand? text = some command ↔
      ∃ gap, (∀ char ∈ gap, Text.isBlank char = true) ∧ text = gap ++ quoted command := by
  constructor
  · intro h
    have hsplit : text.takeWhile Text.isBlank ++ Text.trimStart text = text :=
      List.takeWhile_append_dropWhile
    refine ⟨text.takeWhile Text.isBlank, fun char hchar => List.mem_takeWhile_imp hchar, ?_⟩
    rw [parseCommand?] at h
    have hquoted : Text.trimStart text = quoted command := by
      split at h
      · next hnothing =>
        cases h
        exact hnothing
      · obtain ⟨characters, hcharacters, rfl⟩ := Option.map_eq_some_iff.mp h
        rw [unquote?_eq_some_iff.mp hcharacters, quoted, String.toList_ofList]
    rw [← hquoted, hsplit]
  · rintro ⟨gap, hblank, rfl⟩
    rw [parseCommand?, trimStart_quoted hblank]
    cases command with
    | none => rfl
    | some command =>
        have hunquote : unquote? (quoted (some command)) = some command.toList :=
          unquote?_eq_some_iff.mpr rfl
        simp only [quoted] at hunquote ⊢
        rw [hunquote]
        simp [String.ofList_toList]

/-! ### The line -/

theorem exists_subject_of_parse? {line : String} {record : Record} (h : parse? line = some record) :
    ']' ∉ record.label.toList ∧ ∃ rest,
      Text.trimEnd line.toList = subject record.verdict record.label ++ rest := by
  rw [parse?] at h
  simp only [Option.bind_eq_bind, Option.bind_eq_some_iff, Prod.exists] at h
  obtain ⟨tag, afterTag, htag, verdict, hverdict, inside, hinside, label, rest, hlabel, command, -,
    hrecord⟩ := h
  cases hrecord
  have hword : tag = verdict.text.toList := by
    rw [Verdict.ofText?_eq_some_iff.mp hverdict, String.toList_ofList]
  have hopen : ['['] ++ inside = afterTag := List.isPrefixOf?_eq_some_iff_append_eq.mp hinside
  refine ⟨?_, rest, ?_⟩
  · rw [String.toList_ofList]
    exact Text.not_mem_of_splitOnce hlabel
  · calc Text.trimEnd line.toList
        = tag ++ ([':', ' '] ++ afterTag) := Text.eq_append_of_splitOnce htag
      _ = verdict.text.toList ++ ([':', ' '] ++ (['['] ++ (label ++ ([']'] ++ rest)))) := by
          rw [hword, ← hopen, Text.eq_append_of_splitOnce hlabel]
      _ = subject verdict (String.ofList label) ++ rest := by
          simp [subject, String.toList_ofList]

theorem parse?_eq_some_iff {line : String} {record : Record} :
    parse? line = some record ↔ ∃ gap, Spells line record gap := by
  constructor
  · intro h
    obtain ⟨hlabel, rest, htrim⟩ := exists_subject_of_parse? h
    rw [parse?_of_trimEnd_eq hlabel htrim] at h
    obtain ⟨command, hcommand, heq⟩ := Option.map_eq_some_iff.mp h
    obtain ⟨gap, hblank, rfl⟩ := parseCommand?_eq_some_iff.mp hcommand
    have hsame : command = record.command := congrArg Record.command heq
    exact ⟨gap, hlabel, hblank, by rw [htrim, hsame]⟩
  · rintro ⟨gap, hlabel, hblank, hwhole⟩
    rw [parse?_of_trimEnd_eq hlabel hwhole, parseCommand?_eq_some_iff.mpr ⟨gap, hblank, rfl⟩]
    rfl

theorem label_not_mem_of_parse? {line : String} {record : Record} (h : parse? line = some record) :
    ']' ∉ record.label.toList :=
  (exists_subject_of_parse? h).1

/-- The reader accepts exactly the lines that are made up like this, and takes each of them for the one record
that it can be taken for. Every other line comes back as it was, blanks and all. -/
theorem parse_iff_spells (line : String) :
    (∀ record, parse line = .ok record ↔ ∃ gap, Spells line record gap) ∧
      (∀ record other gap wider, Spells line record gap → Spells line other wider →
        record = other ∧ gap = wider) ∧
      ∀ malformed, parse line = .error malformed ↔
        malformed = ⟨line⟩ ∧ ¬ ∃ record gap, Spells line record gap := by
  refine ⟨fun record => parse_eq_ok_iff.trans parse?_eq_some_iff, ?_, fun malformed => ?_⟩
  · intro record other gap wider hrecord hother
    have hread := parse?_eq_some_iff.mpr ⟨gap, hrecord⟩
    rw [parse?_eq_some_iff.mpr ⟨wider, hother⟩] at hread
    obtain rfl : other = record := Option.some.inj hread
    have hwhole := hrecord.whole.symm.trans hother.whole
    exact ⟨rfl, List.append_cancel_right (List.append_cancel_left hwhole)⟩
  · rw [parse_eq_error_iff, Option.eq_none_iff_forall_ne_some]
    refine and_congr_right fun _ => ?_
    constructor
    · rintro hnone ⟨record, hspells⟩
      exact hnone record (parse?_eq_some_iff.mpr hspells)
    · intro hspells record hread
      exact hspells ⟨record, parse?_eq_some_iff.mp hread⟩

/-- What is written is read back exactly if the label has no closing bracket. So no two such records are written
alike, and whatever is read from a line is read from its own text again. -/
theorem parse_text_iff :
    (∀ record : Record, parse record.text = .ok record ↔ ']' ∉ record.label.toList) ∧
      Set.InjOn text {record | ']' ∉ record.label.toList} ∧
      ∀ line record, parse line = .ok record → parse record.text = .ok record := by
  have hback : ∀ record : Record, parse record.text = .ok record ↔ ']' ∉ record.label.toList :=
    fun record => parse_eq_ok_iff.trans ⟨label_not_mem_of_parse?, parse?_text⟩
  refine ⟨hback, ?_, ?_⟩
  · intro record hrecord other hother htext
    have hread := (hback record).mpr hrecord
    rw [htext, (hback other).mpr hother] at hread
    exact (Except.ok.inj hread).symm
  · intro line record hread
    exact (hback record).mpr (label_not_mem_of_parse? (parse_eq_ok_iff.mp hread))

end Record

end Assay
