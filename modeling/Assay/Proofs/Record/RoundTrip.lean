import Assay.Proofs.Text.Lines
import Assay.Record

/-!
# Reading a log back

Nothing is escaped in a log, so a record comes back only on terms: its label must not hold the bracket that
ends it, and no part of it may hold a line break. On these terms it comes back whatever else is in it, and
whatever stands in the log before it, as long as that ends with a line.
-/

namespace Assay

theorem Verdict.colon_not_mem_text (verdict : Verdict) : ':' ∉ verdict.text.toList := by
  cases verdict <;> decide

theorem Verdict.newline_not_mem_text (verdict : Verdict) : '\n' ∉ verdict.text.toList := by
  cases verdict <;> decide

namespace Record

/-- What a line about this label begins with. -/
def subject (verdict : Verdict) (label : String) : List Char :=
  verdict.text.toList ++ ([':', ' ', '['] ++ (label.toList ++ [']']))

def tail (record : Record) : List Char :=
  match record.command with
  | none => []
  | some command => ' ' :: '"' :: (command.toList ++ ['"'])

theorem toList_text (record : Record) :
    record.text.toList = subject record.verdict record.label ++ record.tail := by
  obtain ⟨verdict, label, command | command⟩ := record
  · simp [text, subject, tail, String.toList_append]
  · simp [text, subject, tail, String.toList_append]

/-- A line ends with a bracket or with a quote, so that nothing is ever trimmed off it. -/
theorem getLast?_text (record : Record) :
    ∃ last, record.text.toList.getLast? = some last ∧ Text.isBlank last = false ∧ last ≠ '\r' := by
  rw [toList_text]
  obtain ⟨verdict, label, command | command⟩ := record
  · refine ⟨']', ?_, by decide, by decide⟩
    simp [subject, tail, List.getLast?_append, List.getLast?_cons]
  · refine ⟨'"', ?_, by decide, by decide⟩
    simp [tail, List.getLast?_append, List.getLast?_cons]

theorem trimEnd_subject (verdict : Verdict) (label : String) (rest : List Char) :
    Text.trimEnd (subject verdict label ++ rest) = subject verdict label ++ Text.trimEnd rest := by
  have hclose := Text.trimEnd_append_cons (by decide : Text.isBlank ']' = false)
    (verdict.text.toList ++ ([':', ' ', '['] ++ label.toList)) rest
  simpa [subject] using hclose

theorem parseCommand?_tail (record : Record) : parseCommand? record.tail = some record.command := by
  have hspace : Text.isBlank ' ' = true := by decide
  have hquote : Text.isBlank '"' = false := by decide
  obtain ⟨verdict, label, command | command⟩ := record
  · rfl
  · simp [parseCommand?, tail, Text.trimStart, hspace, hquote, unquote?, String.ofList_toList]

/-- Only what comes after the label can keep a line that begins like this from being read. -/
theorem parse?_of_trimEnd_eq {line : String} {verdict : Verdict} {label : String} {rest : List Char}
    (hlabel : ']' ∉ label.toList) (h : Text.trimEnd line.toList = subject verdict label ++ rest) :
    parse? line = (parseCommand? rest).map fun command => { verdict, label, command } := by
  have hverdict := Text.splitOnce_append [' '] verdict.colon_not_mem_text
    ('[' :: (label.toList ++ ([']'] ++ rest)))
  have hbracket := Text.splitOnce_append [] hlabel rest
  have hopen (rest : List Char) : ['['].isPrefixOf? ('[' :: rest) = some rest :=
    List.isPrefixOf?_eq_some_iff_append_eq.mpr rfl
  have htrim : Text.trimEnd line.toList =
      verdict.text.toList ++ ([':', ' '] ++ ('[' :: (label.toList ++ ([']'] ++ rest)))) := by
    rw [h]
    simp [subject]
  rw [parse?, htrim]
  simp only [hverdict, hopen, hbracket, Option.bind_eq_bind, Option.bind_some, String.ofList_toList,
    Verdict.ofText?_text]
  cases parseCommand? rest <;> rfl

/-- A line that begins like one about a label is about that label, and has that verdict, if it is about any. -/
theorem subject_of_parse? {verdict : Verdict} {label : String} {rest : List Char} {record : Record}
    (hlabel : ']' ∉ label.toList)
    (h : parse? (String.ofList (subject verdict label ++ rest)) = some record) :
    record.verdict = verdict ∧ record.label = label := by
  have htrim : Text.trimEnd (String.ofList (subject verdict label ++ rest)).toList =
      subject verdict label ++ Text.trimEnd rest := by
    rw [String.toList_ofList, trimEnd_subject]
  rw [parse?_of_trimEnd_eq hlabel htrim] at h
  obtain ⟨command, -, rfl⟩ := Option.map_eq_some_iff.mp h
  exact ⟨rfl, rfl⟩

/-- A record is read back from its text wherever the bracket after the label is the first one. -/
theorem parse?_text {record : Record} (h : ']' ∉ record.label.toList) :
    parse? record.text = some record := by
  obtain ⟨last, hlast, hblank, _⟩ := record.getLast?_text
  have htrim : Text.trimEnd record.text.toList =
      subject record.verdict record.label ++ record.tail := by
    rw [Text.trimEnd_of_getLast? hlast hblank, toList_text]
  rw [parse?_of_trimEnd_eq h htrim, parseCommand?_tail]
  rfl

/-! ### Lines of a log -/

/-- The record takes up one line and no more. -/
def IsLine (record : Record) : Prop :=
  ']' ∉ record.label.toList ∧ '\n' ∉ record.label.toList ∧
    ∀ command, record.command = some command → '\n' ∉ command.toList

theorem IsLine.newline_not_mem {record : Record} (h : record.IsLine) :
    '\n' ∉ record.text.toList := by
  obtain ⟨-, hlabel, hcommand⟩ := h
  have hverdict := record.verdict.newline_not_mem_text
  have htail : '\n' ∉ record.tail := by
    obtain ⟨verdict, label, command | command⟩ := record
    · simp [tail]
    · simpa [tail] using hcommand command rfl
  rw [toList_text]
  simp [subject, hverdict, hlabel, htail]

theorem isClosed_line (record : Record) : Text.IsClosed (record.text ++ "\n").toList := by
  refine .inr ?_
  rw [String.toList_append, List.getLast?_append]
  rfl

theorem readAll_append {log : String} (h : Text.IsClosed log.toList) (rest : String) :
    readAll (log ++ rest) = readAll log ++ readAll rest := by
  rw [readAll, String.toList_append, Text.lines_append h, List.filterMap_append]
  rfl

theorem readAll_line {record : Record} (h : record.IsLine) :
    readAll (record.text ++ "\n") = [record] := by
  obtain ⟨last, hlast, _, hreturn⟩ := record.getLast?_text
  have hlines : Text.lines (record.text ++ "\n").toList = [record.text.toList] := by
    rw [String.toList_append]
    exact (Text.lines_of_not_mem h.newline_not_mem).trans
      (by rw [Text.dropCarriageReturn_of_getLast? hlast hreturn])
  rw [readAll, hlines]
  simp [String.ofList_toList, parse?_text h.1]

def linesOf (records : List Record) : String :=
  String.join (records.map fun record => record.text ++ "\n")

theorem linesOf_cons (record : Record) (records : List Record) :
    linesOf (record :: records) = (record.text ++ "\n") ++ linesOf records := by
  simp [linesOf, String.join_cons]

theorem linesOf_append (records : List Record) (record : Record) :
    linesOf (records ++ [record]) = linesOf records ++ (record.text ++ "\n") := by
  simp [linesOf, String.join_append]

theorem readAll_linesOf {records : List Record} (h : ∀ record ∈ records, record.IsLine) :
    readAll (linesOf records) = records := by
  induction records with
  | nil => rfl
  | cons record records ih =>
      rw [linesOf_cons, readAll_append record.isClosed_line, readAll_line (h record (.head _)),
        ih fun other hother => h other (.tail _ hother)]
      rfl

end Record

end Assay
