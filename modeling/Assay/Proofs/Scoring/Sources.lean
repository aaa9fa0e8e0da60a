import Assay.Config
import Assay.Proofs.Path.Resolution

/-!
# Whose files the analyzer is given

A part names a file, and the analyzer is to be given this file of the reference and of the student. The name is put
behind either source directory. So the analyzer is given what it should be given if the name stays below where it
starts, and no other name is good for everybody who may be compared.
-/

namespace Assay

namespace Location

/-- Neither is the other or in it. -/
def Apart (left right : Location) : Prop := ¬ left <+: right ∧ ¬ right <+: left

def IsBelow (location base : Location) : Prop := base <+: location ∧ location ≠ base

theorem Apart.ne_of_isBelow {left right first second : Location} (h : Apart left right)
    (hfirst : first.IsBelow left) (hsecond : second.IsBelow right) : first ≠ second := by
  rintro rfl
  rcases List.prefix_or_prefix_of_prefix hfirst.1 hsecond.1 with hprefix | hprefix
  · exact h.1 hprefix
  · exact h.2 hprefix

theorem apart_singleton {left right : RawText} (h : left ≠ right) : Apart [left] [right] := by
  constructor <;> simp [h, Ne.symm h]

end Location

namespace Path

/-- The path stays below where it starts, and does not end there. -/
def Descends (path : Path) : Prop := path.Inward ∧ path.route.names ≠ []
deriving Decidable

theorem Descends.isBelow {path : Path} (h : path.Descends) (base : Location) :
    (path.resolve base).IsBelow base := by
  rw [h.1.resolve]
  exact ⟨List.prefix_append _ _, fun heq => h.2 (List.append_right_eq_self.mp heq)⟩

/-- A path that does not stay below where it starts leads out of one of two neighbours. -/
theorem not_isBelow_of_not_descends {path : Path} (h : ¬ path.Descends) {left right : RawText}
    (hne : left ≠ right) :
    ¬ ((path.resolve [left]).IsBelow [left] ∧ (path.resolve [right]).IsBelow [right]) := by
  rintro ⟨hleft, hright⟩
  by_cases hinward : path.Inward
  · have hnames : path.route.names = [] := not_not.mp fun hnames => h ⟨hinward, hnames⟩
    apply hleft.2
    rw [hinward.resolve, hnames, List.append_nil]
  · have hsame : path.resolve [left] = path.resolve [right] := resolve_neighbours hinward [] left right
    exact (Location.apart_singleton hne).ne_of_isBelow hleft hright hsame

end Path

namespace AnalyzerRule

/-- The paths of the files that a command has the analyzer compare. -/
structure Compares (command : Command) (reference student : String) : Prop where
  reference : command.arguments[0]? = some ("-cam-reference-solution=" ++ reference)
  student : command.arguments[2]? = some student

theorem compares_command (rule : AnalyzerRule) (reference student : Submission) (part : AnalyzerPart) :
    Compares (rule.command reference student part) (reference.sources.join ⟨part.file⟩).shown
      (student.sources.join ⟨part.file⟩).shown :=
  ⟨rfl, rfl⟩

theorem Compares.unique {command : Command} {reference student reference' student' : String}
    (h : Compares command reference student) (h' : Compares command reference' student') :
    reference' = reference ∧ student' = student := by
  have hreference := Option.some.inj (h'.reference.symm.trans h.reference)
  have hstudent := Option.some.inj (h'.student.symm.trans h.student)
  exact ⟨String.append_right_inj _ |>.mp hreference, hstudent⟩

/-- The command names a file of the reference, a file of the student, and not the same one twice. Paths are taken as
they are written. -/
structure ComparesOwn (command : Command) (base : Location) (reference student : Submission) : Prop where
  own : ∃ first second : String, Compares command first second ∧
    ((⟨first⟩ : Path).resolve base).IsBelow (reference.sources.resolve base) ∧
    ((⟨second⟩ : Path).resolve base).IsBelow (student.sources.resolve base)
  distinct : ∀ first second : String, Compares command first second →
    (⟨first⟩ : Path).resolve base ≠ (⟨second⟩ : Path).resolve base

/-- Of this part everybody's own file is compared, and for different students the analyzer is told something
different. Nobody's sources are in a directory whose path is no text: that path cannot be told. -/
structure Faithful (rule : AnalyzerRule) (part : AnalyzerPart) : Prop where
  own : ∀ (base : Location) (reference student : Submission), reference.sources.text.IsText →
    student.sources.text.IsText → (reference.sources.resolve base).Apart (student.sources.resolve base) →
      ComparesOwn (rule.command reference student part) base reference student
  distinct : ∀ (base : Location) (reference student other : Submission), student.sources.text.IsText →
    other.sources.text.IsText → (student.sources.resolve base).Apart (other.sources.resolve base) →
      (rule.command reference student part).arguments[2]? ≠ (rule.command reference other part).arguments[2]?

theorem mk_shown_join (sources : Path) (h : sources.text.IsText) (file : String) :
    (⟨(sources.join ⟨file⟩).shown⟩ : Path) = sources.join ⟨file⟩ :=
  Path.mk_shown (Path.isText_join h (RawText.isText_ofText file))

theorem isBelow_join {part : AnalyzerPart} (h : (⟨part.file⟩ : Path).Descends) (base : Location)
    {sources : Path} (htext : sources.text.IsText) :
    ((⟨(sources.join ⟨part.file⟩).shown⟩ : Path).resolve base).IsBelow (sources.resolve base) := by
  rw [mk_shown_join sources htext, Path.resolve_join]
  exact h.isBelow _

theorem faithful_of_descends (rule : AnalyzerRule) {part : AnalyzerPart}
    (h : (⟨part.file⟩ : Path).Descends) : rule.Faithful part := by
  constructor
  · intro base reference student htext htext' hapart
    have hcompares := rule.compares_command reference student part
    have hreference := isBelow_join h base htext
    have hstudent := isBelow_join h base htext'
    refine ⟨⟨_, _, hcompares, hreference, hstudent⟩, fun first second hnamed => ?_⟩
    obtain ⟨rfl, rfl⟩ := hcompares.unique hnamed
    exact hapart.ne_of_isBelow hreference hstudent
  · intro base reference student other htext htext' hapart hsame
    have hpaths : (student.sources.join ⟨part.file⟩).shown = (other.sources.join ⟨part.file⟩).shown :=
      Option.some.inj hsame
    have hstudent := isBelow_join h base htext
    rw [hpaths] at hstudent
    exact hapart.ne_of_isBelow hstudent (isBelow_join h base htext') rfl

theorem descends_of_faithful {rule : AnalyzerRule} {part : AnalyzerPart} (h : rule.Faithful part) :
    (⟨part.file⟩ : Path).Descends := by
  by_contra hleaves
  -- Whoever has sources in the root directory will do.
  have hreference : (⟨"/a"⟩ : Path).resolve [] = (["a"] : Location) := by decide
  have hstudent : (⟨"/b"⟩ : Path).resolve [] = (["b"] : Location) := by decide
  have hapart : Location.Apart ["a"] ["b"] := Location.apart_singleton (by decide)
  have htext (name : String) : (RawText.ofText name).IsText := RawText.isText_ofText name
  obtain ⟨⟨first, second, hnamed, hfirst, hsecond⟩, -⟩ :=
    h.own [] ⟨"a", ⟨"/a"⟩, ⟨"/a"⟩⟩ ⟨"b", ⟨"/b"⟩, ⟨"/b"⟩⟩ (htext "/a") (htext "/b")
      (by rw [hreference, hstudent]; exact hapart)
  obtain ⟨rfl, rfl⟩ := (rule.compares_command _ _ part).unique hnamed
  rw [mk_shown_join ⟨"/a"⟩ (htext "/a"), Path.resolve_join, hreference] at hfirst
  rw [mk_shown_join ⟨"/b"⟩ (htext "/b"), Path.resolve_join, hstudent] at hsecond
  exact Path.not_isBelow_of_not_descends hleaves (by decide) ⟨hfirst, hsecond⟩

theorem parts_of_analyzerRule {config : Config} {rule : AnalyzerRule}
    (h : config.analyzerRule = .ok rule) : rule.parts = config.score.parts := by
  unfold Config.analyzerRule at h
  split at h
  · cases h
  · split at h
    · cases h
    · cases h
      rfl

/-- Everybody is scored on files of their own exactly if the settings name files that are found without leaving the
sources, and are not the sources themselves. -/
theorem faithful_iff_descends {config : Config} {rule : AnalyzerRule} (hrule : config.analyzerRule = .ok rule) :
    (∀ part ∈ rule.parts, rule.Faithful part ↔ (⟨part.file⟩ : Path).Descends) ∧
      ((∀ part ∈ rule.parts, rule.Faithful part) ↔
        ∀ part ∈ config.score.parts, (⟨part.file⟩ : Path).Descends) := by
  have hpart (part : AnalyzerPart) : rule.Faithful part ↔ (⟨part.file⟩ : Path).Descends :=
    ⟨descends_of_faithful, rule.faithful_of_descends⟩
  refine ⟨fun part _ => hpart part, ?_⟩
  simp only [hpart, parts_of_analyzerRule hrule]

/-- Settings that score one file. -/
def scoring (file : String) : Config :=
  { score := { analyzer := "cam", parts := [⟨"a1", file⟩] } }

theorem faithful_iff_descends_nested :
    ∃ rule, (scoring "./a1/../paster.c").analyzerRule = .ok rule ∧
      ∀ part ∈ rule.parts, rule.Faithful part := by
  obtain ⟨rule, hrule⟩ : ∃ rule, (scoring "./a1/../paster.c").analyzerRule = .ok rule := ⟨_, rfl⟩
  refine ⟨rule, hrule, (faithful_iff_descends hrule).2.mpr fun part hpart => ?_⟩
  obtain rfl := List.mem_singleton.mp hpart
  decide

/-- One file that everybody is scored on. -/
theorem not_faithful_shared :
    ∃ rule part, (scoring "/shared/paster.c").analyzerRule = .ok rule ∧ part ∈ rule.parts ∧
      (∀ reference student : Submission,
        rule.command reference student part =
          ⟨"cam", ["-cam-reference-solution=/shared/paster.c", "-cam-marker=a1", "/shared/paster.c", "--"]⟩) ∧
      ¬ rule.Faithful part := by
  refine ⟨_, ⟨"a1", "/shared/paster.c"⟩, rfl, List.mem_singleton_self _, fun reference student => rfl, ?_⟩
  intro hfaithful
  exact absurd (descends_of_faithful hfaithful) (by decide)

end AnalyzerRule

end Assay
