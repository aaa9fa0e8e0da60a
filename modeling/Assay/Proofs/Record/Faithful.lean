import Assay.Proofs.Record.RoundTrip
import Assay.Proofs.Table

/-!
# Lines that speak for others

Nothing keeps a command with a line break in it from making two lines out of one, and nothing keeps the second
one from being about somebody else. A record is faithful if that does not happen: whatever its line reads back
as is about its own label. Only what comes after the breaks decides it.
-/

namespace Assay

namespace Record

/-- Whatever is read back from the line of the record is about the same label. -/
def Faithful (record : Record) : Prop :=
  ∀ other ∈ readAll (record.text ++ "\n"), other.label = record.label

theorem faithful_of_isLine {record : Record} (h : record.IsLine) : record.Faithful := by
  intro other hother
  rw [readAll_line h] at hother
  rw [List.mem_singleton.mp hother]

/-! ### Looking others up -/

theorem readAll_linesOf_eq_flatMap (records : List Record) :
    readAll (linesOf records) = records.flatMap fun record => readAll (record.text ++ "\n") := by
  induction records with
  | nil => rfl
  | cons record records ih =>
      rw [linesOf_cons, readAll_append record.isClosed_line, ih, List.flatMap_cons]

theorem verdicts_eq_putAll (log : String) :
    verdicts log =
      Table.empty.putAll ((readAll log).map fun record => (record.label, record.verdict)) := by
  rw [verdicts, Table.putAll, List.foldl_map]

/-- The last record about a label decides. -/
theorem find?_verdicts (log : String) (label : String) :
    (verdicts log).find? label =
      (((readAll log).filter fun record => record.label = label).getLast?).map Record.verdict := by
  rw [verdicts_eq_putAll, Table.find?_putAll, Table.find?_empty, Option.or_none, List.filter_map,
    List.getLast?_map, Option.map_map]
  rfl

/-- A log with a single line tells nothing of others exactly if the line is faithful. -/
theorem faithful_iff_find?_eq_none (record : Record) :
    record.Faithful ↔ ∀ label, label ≠ record.label →
      (verdicts (record.text ++ "\n")).find? label = none := by
  constructor
  · intro hfaithful label hne
    have hnone : (readAll (record.text ++ "\n")).filter (fun other => other.label = label) = [] := by
      apply List.filter_eq_nil_iff.mpr
      intro other hother
      rw [hfaithful other hother]
      simpa using hne.symm
    rw [find?_verdicts, hnone]
    rfl
  · intro hnone other hother
    by_contra hne
    have hempty := hnone other.label hne
    rw [find?_verdicts] at hempty
    have hlast : ((readAll (record.text ++ "\n")).filter
        fun found => found.label = other.label).getLast? = none :=
      Option.map_eq_none_iff.mp hempty
    have hmem : other ∈ (readAll (record.text ++ "\n")).filter
        fun found => found.label = other.label :=
      List.mem_filter.mpr ⟨hother, by simp⟩
    rw [List.getLast?_eq_none_iff.mp hlast] at hmem
    cases hmem

/-- Faithful records about one label can be left out where another label is looked up. -/
theorem filter_readAll_linesOf {records : List Record} {label other : String} (hne : other ≠ label)
    (hfaithful : ∀ record ∈ records, record.label = label → record.Faithful) :
    (readAll (linesOf records)).filter (fun record => record.label = other) =
      (readAll (linesOf (records.filter fun record => record.label ≠ label))).filter
        fun record => record.label = other := by
  rw [readAll_linesOf_eq_flatMap, readAll_linesOf_eq_flatMap]
  induction records with
  | nil => rfl
  | cons record records ih =>
      have hrest := ih fun later hlater => hfaithful later (.tail _ hlater)
      rw [List.flatMap_cons, List.filter_append, hrest]
      by_cases hlabel : record.label = label
      · have hnone : (readAll (record.text ++ "\n")).filter (fun found => found.label = other) = [] := by
          apply List.filter_eq_nil_iff.mpr
          intro found hfound
          rw [hfaithful record (.head _) hlabel found hfound, hlabel]
          simpa using hne.symm
        rw [hnone, List.nil_append, List.filter_cons_of_neg (by simpa using hlabel)]
      · rw [List.filter_cons_of_pos (by simpa using hlabel), List.flatMap_cons, List.filter_append]

/-! ### What comes after a line break -/

/-- The records that begin behind a line break, where the text stands quoted at the end of a line. -/
def afterBreaks (text : String) : List Record :=
  (Text.splitAll '\n' (text.toList ++ ['"'])).tail.filterMap fun line =>
    parse? (String.ofList (Text.dropCarriageReturn line))

theorem afterBreaks_append {before : String} (h : '\n' ∉ before.toList) (text : String) :
    afterBreaks (before ++ text) = afterBreaks text := by
  obtain ⟨first, later, htext, hall⟩ :=
    Text.splitAll_append_of_not_mem h (text.toList ++ ['"'])
  rw [afterBreaks, afterBreaks, String.toList_append, List.append_assoc, hall, htext]
  rfl

theorem afterBreaks_of_not_mem {text : String} (h : '\n' ∉ text.toList) : afterBreaks text = [] := by
  have hquoted : '\n' ∉ text.toList ++ ['"'] := by simpa using h
  rw [afterBreaks, Text.splitAll_of_not_mem hquoted]
  rfl

/-- The line of a record reads back as something about its label, if anything, and as what comes after the
line breaks in its command. -/
theorem readAll_of_command {record : Record} {command : String}
    (hlabel : ']' ∉ record.label.toList ∧ '\n' ∉ record.label.toList)
    (hcommand : record.command = some command) :
    ∃ first : Option Record, (∀ other ∈ first, other.label = record.label) ∧
      readAll (record.text ++ "\n") = first.toList ++ afterBreaks command := by
  have hverdict := record.verdict.newline_not_mem_text
  have hbefore : '\n' ∉ subject record.verdict record.label ++ [' ', '"'] := by
    simp [subject, hverdict, hlabel.2]
  have htext : record.text.toList =
      (subject record.verdict record.label ++ [' ', '"']) ++ (command.toList ++ ['"']) := by
    rw [toList_text, tail, hcommand]
    simp
  obtain ⟨start, later, hpieces, hall⟩ :=
    Text.splitAll_append_of_not_mem hbefore (command.toList ++ ['"'])
  rw [← htext] at hall
  have hlines : Text.lines (record.text ++ "\n").toList =
      (Text.splitAll '\n' record.text.toList).map Text.dropCarriageReturn := by
    rw [String.toList_append]
    exact (Text.lines_append_newline record.text.toList []).trans (List.append_nil _)
  have hstart : Text.dropCarriageReturn
      (subject record.verdict record.label ++ [' ', '"'] ++ start) =
        subject record.verdict record.label ++
          Text.dropCarriageReturn (' ' :: '"' :: start) := by
    have hclose := Text.dropCarriageReturn_append_cons (by decide : ']' ≠ '\r')
      (record.verdict.text.toList ++ ([':', ' ', '['] ++ record.label.toList))
      (' ' :: '"' :: start)
    simpa [subject, List.append_assoc] using hclose
  refine ⟨parse? (String.ofList (subject record.verdict record.label ++
    Text.dropCarriageReturn (' ' :: '"' :: start))),
    fun other hother => (subject_of_parse? hlabel.1 hother).2, ?_⟩
  rw [readAll, hlines, hall, List.map_cons, hstart, afterBreaks, hpieces, List.tail_cons,
    List.filterMap_cons, List.filterMap_map]
  split
  · next hnone => rw [hnone]; rfl
  · next hsome => rw [hsome]; rfl

theorem faithful_iff_afterBreaks {record : Record} {command : String}
    (hlabel : ']' ∉ record.label.toList ∧ '\n' ∉ record.label.toList)
    (hcommand : record.command = some command) :
    record.Faithful ↔ ∀ other ∈ afterBreaks command, other.label = record.label := by
  obtain ⟨first, hfirst, hread⟩ := readAll_of_command hlabel hcommand
  rw [Faithful, hread]
  constructor
  · intro hfaithful other hother
    exact hfaithful other (List.mem_append_right _ hother)
  · intro hbreaks other hother
    rcases List.mem_append.mp hother with hmem | hmem
    · exact hfirst other (Option.mem_toList.mp hmem)
    · exact hbreaks other hmem

end Record

end Assay
