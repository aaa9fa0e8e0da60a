import Assay.Proofs.ExecuteLog.Agreement
import Assay.Proofs.Record.Faithful
import Assay.Proofs.Record.Grammar

/-!
# A log that was cut off

When the machine goes down while a line is being written, the log ends in the middle of that line. Nothing marks
such a line, and it can still read as one: up to the bracket it is an outcome without a command, and up to any quote
in the command it is an outcome with a shorter one. But what is read then was there already, since a line is only
read once the bracket behind the label is in it. So the log of a run that was cut off is the log of a shorter run,
as far as tags go.
-/

namespace Assay

theorem Verdict.bracket_not_mem_text (verdict : Verdict) : ']' ∉ verdict.text.toList := by
  cases verdict <;> decide

namespace Text

theorem lines_of_open {line : List Char} (h : '\n' ∉ line) :
    lines line = if line = [] then [] else [line] := by
  rw [lines, splitAll_of_not_mem h]
  cases line <;> rfl

end Text

namespace Record

theorem bracket_mem_of_parse? {line : String} {record : Record} (h : parse? line = some record) :
    ']' ∈ line.toList := by
  obtain ⟨-, rest, htrim⟩ := exists_subject_of_parse? h
  apply (Text.trimEnd_prefix line.toList).subset
  rw [htrim, subject]
  simp

/-- The beginning of a line is read, if at all, as being about what the whole line is about. -/
theorem parse?_of_prefix {record torn : Record} {part : List Char}
    (hlabel : ']' ∉ record.label.toList) (hpart : part <+: record.text.toList)
    (h : parse? (String.ofList part) = some torn) :
    torn.verdict = record.verdict ∧ torn.label = record.label := by
  let unclosed := record.verdict.text.toList ++ ([':', ' ', '['] ++ record.label.toList)
  have hwhole : record.text.toList = (unclosed ++ [']']) ++ record.tail := by
    rw [toList_text, subject]
    simp [unclosed]
  have hunclosed : ']' ∉ unclosed := by
    simp [unclosed, hlabel, record.verdict.bracket_not_mem_text]
  have hbracket : ']' ∈ part := by
    simpa [String.toList_ofList] using bracket_mem_of_parse? h
  rw [hwhole] at hpart
  have hclosed : unclosed ++ [']'] <+: part := by
    rcases List.prefix_or_prefix_of_prefix hpart (List.prefix_append _ _) with hshort | hlong
    · rcases List.prefix_concat_iff.mp hshort with heq | hbefore
      · exact heq ▸ List.prefix_rfl
      · exact absurd (hbefore.subset hbracket) hunclosed
    · exact hlong
  obtain ⟨rest, rfl⟩ := hclosed
  have hsubject : (unclosed ++ [']']) ++ rest = subject record.verdict record.label ++ rest := by
    simp [unclosed, subject]
  rw [hsubject] at h
  exact subject_of_parse? hlabel h

/-! ### Where the cut is -/

theorem toList_linesOf_cons (record : Record) (records : List Record) :
    (linesOf (record :: records)).toList =
      (record.text.toList ++ ['\n']) ++ (linesOf records).toList := by
  rw [linesOf_cons, String.toList_append, String.toList_append]
  rfl

/-- A text that is cut off has some of its lines, and the beginning of the next one. -/
theorem exists_of_prefix_linesOf {records : List Record} {cut : List Char}
    (h : cut <+: (linesOf records).toList) :
    ∃ done later part, records = done ++ later ∧ cut = (linesOf done).toList ++ part ∧
      (part = [] ∨ ∃ record, later.head? = some record ∧ part <+: record.text.toList) := by
  induction records generalizing cut with
  | nil => exact ⟨[], [], [], rfl, List.prefix_nil.mp h, .inl rfl⟩
  | cons record records ih =>
      rw [toList_linesOf_cons] at h
      have hfirst := List.prefix_append (record.text.toList ++ ['\n']) (linesOf records).toList
      rcases List.prefix_or_prefix_of_prefix h hfirst with hshort | hlong
      · rcases List.prefix_concat_iff.mp hshort with rfl | hwithin
        · refine ⟨[record], records, [], rfl, ?_, .inl rfl⟩
          rw [toList_linesOf_cons, List.append_nil]
          exact (List.append_nil _).symm
        · exact ⟨[], record :: records, cut, rfl, rfl, .inr ⟨record, rfl, hwithin⟩⟩
      · obtain ⟨rest, rfl⟩ := hlong
        obtain ⟨done, later, part, hrecords, hrest, hpart⟩ :=
          ih ((List.prefix_append_right_inj _).mp h)
        refine ⟨record :: done, later, part, congrArg _ hrecords, ?_, hpart⟩
        rw [hrest, toList_linesOf_cons]
        exact (List.append_assoc ..).symm

theorem isClosed_linesOf (records : List Record) : Text.IsClosed (linesOf records).toList := by
  induction records using List.reverseRecOn with
  | nil => exact .inl rfl
  | append_singleton records record ih =>
      refine .inr ?_
      rw [linesOf_append, String.toList_append, String.toList_append, List.getLast?_append,
        List.getLast?_append]
      rfl

theorem count_linesOf {records : List Record} (h : ∀ record ∈ records, record.IsLine) :
    (linesOf records).toList.count '\n' = records.length := by
  induction records with
  | nil => rfl
  | cons record records ih =>
      have hrecord := List.count_eq_zero_of_not_mem (h record (.head _)).newline_not_mem
      have hrest := ih fun later hlater => h later (.tail _ hlater)
      rw [toList_linesOf_cons, List.count_append, List.count_append, hrecord, hrest,
        List.count_singleton_self, List.length_cons]
      omega

theorem readAll_of_open {line : List Char} (h : '\n' ∉ line) :
    readAll (String.ofList line) = (parse? (String.ofList line)).toList := by
  rw [readAll, String.toList_ofList, Text.lines_of_open h]
  split
  · next hempty =>
    rw [hempty]
    rfl
  · rw [List.filterMap_cons]
    cases parse? (String.ofList line) <;> rfl

/-- However a text of lines is cut off, what is left of it has the tags of its first lines: of those that are
still whole, and perhaps of the one that is not. -/
theorem verdicts_of_prefix_linesOf {records : List Record} {cut : String}
    (hlines : ∀ record ∈ records, record.IsLine) (h : cut.toList <+: (linesOf records).toList) :
    ∃ count, count ≤ records.length ∧
      (count = cut.toList.count '\n' ∨ count = cut.toList.count '\n' + 1) ∧
      verdicts cut = Table.empty.putAll
        ((records.take count).map fun record => (record.label, record.verdict)) := by
  obtain ⟨done, later, part, rfl, hcut, hpart⟩ := exists_of_prefix_linesOf h
  have hdone : ∀ record ∈ done, record.IsLine := fun record hrecord =>
    hlines record (List.mem_append_left _ hrecord)
  have hopen : '\n' ∉ part := by
    rcases hpart with rfl | ⟨record, hhead, hbegins⟩
    · exact List.not_mem_nil
    · have hrecord := hlines record (List.mem_append_right _ (List.mem_of_head? hhead))
      exact fun hbreak => hrecord.newline_not_mem (hbegins.subset hbreak)
  have hcount : cut.toList.count '\n' = done.length := by
    rw [hcut, List.count_append, count_linesOf hdone, List.count_eq_zero_of_not_mem hopen]
    rfl
  have hread : readAll cut = done ++ (parse? (String.ofList part)).toList := by
    have hsplit : cut = linesOf done ++ String.ofList part := by
      rw [← String.toList_inj, hcut, String.toList_append, String.toList_ofList]
    rw [hsplit, readAll_append (isClosed_linesOf done), readAll_linesOf hdone,
      readAll_of_open hopen]
  rw [verdicts_eq_putAll, hread, hcount]
  cases htorn : parse? (String.ofList part) with
  | none =>
      refine ⟨done.length, by simp, .inl rfl, ?_⟩
      simp
  | some torn =>
      obtain ⟨record, hhead, hbegins⟩ : ∃ record, later.head? = some record ∧
          part <+: record.text.toList := by
        rcases hpart with rfl | hpart
        · cases htorn
        · exact hpart
      obtain ⟨rest, rfl⟩ := List.head?_eq_some_iff.mp hhead
      have hlabel := (hlines record (by simp)).1
      obtain ⟨hverdict, hsame⟩ := parse?_of_prefix hlabel hbegins htorn
      refine ⟨done.length + 1, by simp, .inr rfl, ?_⟩
      have htake : (done ++ record :: rest).take (done.length + 1) = done ++ [record] := by
        rw [List.take_length_add_append, List.take_succ_cons, List.take_zero]
      rw [htake, Option.toList_some, List.map_append, List.map_append, List.map_singleton,
        List.map_singleton, hverdict, hsame]

end Record

namespace ExecuteLog

variable {ρ : Type}

/-- Reports one outcome after the other. -/
def reportAll (log : ExecuteLog) (reports : List (Submission × Outcome)) (world : World ρ) :
    World ρ :=
  reports.foldl (fun world report => (log.report report.1 report.2 world).2) world

variable {log : ExecuteLog} {world : World ρ}

theorem Holds.reportAll {prior : String} (h : log.Holds (Bytes.ofText prior) world.files)
    (reports : List (Submission × Outcome)) :
    log.Holds (Bytes.ofText (prior ++ Record.linesOf (recordsOf reports)))
      (log.reportAll reports world).files := by
  induction reports generalizing prior world with
  | nil =>
      have hnone : prior ++ Record.linesOf (recordsOf []) = prior := String.append_empty
      rw [hnone]
      exact h
  | cons report reports ih =>
      have hfirst := h.report report.1 report.2
      rw [← Bytes.ofText_append] at hfirst
      have hall := ih hfirst
      rw [String.append_assoc] at hall
      rw [recordsOf, List.map_cons, Record.linesOf_cons]
      exact hall

/-- Outcomes are reported to a fresh log, and the log is cut off somewhere. What it says then is what it said after
the first so many of the reports, and these are the ones whose lines are still whole, or one more. -/
theorem torn_log_agrees {directory : Path} {key : String} {before : World ρ}
    {reports : List (Submission × Outcome)} (hnumbered : before.files.Numbered)
    (hattach : attach directory key before = (.ok log, world))
    (hfresh : world.files.readText world.files.directory log.path = .ok "")
    (hlabels : ∀ report ∈ reports, ']' ∉ report.1.label.toList ∧ '\n' ∉ report.1.label.toList)
    (hcommands : ∀ report ∈ reports, ∀ command, report.2.command? = some command →
      '\n' ∉ command.text.toList) :
    let last := log.reportAll reports world
    ∃ text, last.files.readText last.files.directory log.path = .ok text ∧
      ∀ cut : String, cut.toList <+: text.toList →
        ∃ count, count ≤ reports.length ∧
          (count = cut.toList.count '\n' ∨ count = cut.toList.count '\n' + 1) ∧
          ∀ crashed : World ρ,
            crashed.files.readText crashed.files.directory log.path = .ok cut →
            (verdicts log.path crashed).1 = .ok (Table.empty.putAll
              ((reports.take count).map fun report => (report.1.label, report.2.verdict))) := by
  intro last
  have hholds := (holds_attach_of_readText hnumbered hattach hfresh).reportAll reports
  rw [String.empty_append] at hholds
  refine ⟨_, hholds.readText_eq, fun cut hcut => ?_⟩
  have hlines : ∀ record ∈ recordsOf reports, record.IsLine := by
    intro record hrecord
    obtain ⟨report, hreport, rfl⟩ := List.mem_map.mp hrecord
    obtain ⟨hbracket, hbreak⟩ := hlabels report hreport
    refine ⟨hbracket, hbreak, fun text htext => ?_⟩
    obtain ⟨command, hcommand, rfl⟩ := Option.map_eq_some_iff.mp htext
    exact hcommands report hreport command hcommand
  obtain ⟨count, hle, hcount, htags⟩ := Record.verdicts_of_prefix_linesOf hlines hcut
  refine ⟨count, by simpa [recordsOf] using hle, hcount, fun crashed hread => ?_⟩
  have hrecords : ((recordsOf reports).take count).map (fun record => (record.label, record.verdict)) =
      (reports.take count).map fun report => (report.1.label, report.2.verdict) := by
    rw [recordsOf, ← List.map_take, List.map_map]
    rfl
  rw [verdicts, hread]
  exact congrArg Except.ok (htags.trans (congrArg _ hrecords))

/-- Two outcomes, of which the first one can be taken for whole in three places. -/
def quotedReports : List (Submission × Outcome) :=
  [(.ofRoot "a" ⟨"/work/a"⟩, .compileFailure ⟨"make", ["x] \"y", "\"z"]⟩),
    (.ofRoot "a: [b" ⟨"/work/b"⟩, .timeout none)]

def freshStart : World Unit := .start (Files.bare ["out"]) ()

theorem numbered_freshStart : freshStart.files.Numbered where
  below := by
    intro entry hentry id content executable hfile
    obtain rfl := List.mem_singleton.mp hentry
    cases hfile
  same := by
    intro entry hentry other hother id content executable content' executable' hfile
    obtain rfl := List.mem_singleton.mp hentry
    cases hfile

theorem torn_log_agrees_quoted :
    let log : ExecuteLog := ⟨⟨"/out/execute_log_k.txt"⟩, ⟨0⟩⟩
    let world := (attach ⟨"/out"⟩ "k" freshStart).2
    let last := log.reportAll quotedReports world
    attach ⟨"/out"⟩ "k" freshStart = (.ok log, world) ∧
      ∃ text, last.files.readText last.files.directory log.path = .ok text ∧
        ∀ cut : String, cut.toList <+: text.toList →
          ∃ count, count ≤ quotedReports.length ∧
            (count = cut.toList.count '\n' ∨ count = cut.toList.count '\n' + 1) ∧
            ∀ crashed : World Unit,
              crashed.files.readText crashed.files.directory log.path = .ok cut →
              (verdicts log.path crashed).1 = .ok (Table.empty.putAll
                ((quotedReports.take count).map
                  fun report => (report.1.label, report.2.verdict))) := by
  intro log world last
  have hattach : attach ⟨"/out"⟩ "k" freshStart = (.ok log, world) := by
    refine Prod.ext ?_ rfl
    decide
  have hfresh : world.files.readText world.files.directory log.path = .ok "" := by
    decide
  refine ⟨hattach, torn_log_agrees numbered_freshStart hattach hfresh (by decide) ?_⟩
  intro report hreport command hcommand
  rcases List.mem_pair.mp hreport with rfl | rfl <;> cases hcommand
  decide

end ExecuteLog

end Assay
