import Assay.Files.Operations
import Assay.Proofs.Text.Lines
import Assay.Proofs.Text.Raw
import Mathlib.Data.List.Induction

/-!
# The steps of a path

A path is a text, and there are many ways to write the same one. What counts for where it leads is whether it
starts at the root and which names it goes through, and both are known of every path that is put together from
others.
-/

namespace Assay

namespace Path

/-- A name that a path can go through. -/
def Legal (name : RawText) : Prop := name ≠ "" ∧ separator ∉ name.bytes
deriving Decidable

def pieces (bytes : List UInt8) : List RawText :=
  ((Text.splitAll separator bytes).filter (!·.isEmpty)).map RawText.mk

theorem pieces_append (before after : List UInt8) :
    pieces (before ++ separator :: after) = pieces before ++ pieces after := by
  rw [pieces, Text.splitAll_append, List.filter_append, List.map_append]
  rfl

theorem pieces_of_legal {name : RawText} (h : Legal name) : pieces name.bytes = [name] := by
  have hne : name.bytes ≠ [] := fun hnil => h.1 (RawText.bytes_eq_nil_iff.mp hnil)
  rw [pieces, Text.splitAll_of_not_mem h.2, List.filter_cons_of_pos (by simpa using hne)]
  rfl

theorem legal_of_mem_segments {path : Path} {segment : RawText} (h : segment ∈ path.segments) :
    Legal segment := by
  obtain ⟨piece, hpiece, rfl⟩ := List.mem_map.mp h
  obtain ⟨hmem, hne⟩ := List.mem_filter.mp hpiece
  refine ⟨fun hempty => ?_, Text.not_mem_of_mem_splitAll hmem⟩
  have hnil : piece = [] := congrArg RawText.bytes hempty
  simp [hnil] at hne

def steps (path : Path) : List RawText := path.segments.filter (· ≠ ("." : RawText))

/-- A name of something in a directory. -/
structure Proper (name : RawText) : Prop where
  legal : Legal name
  ne_here : name ≠ "."
  ne_up : name ≠ ".."

instance (name : RawText) : Decidable (Proper name) :=
  decidable_of_iff (Legal name ∧ name ≠ "." ∧ name ≠ "..")
    ⟨fun h => ⟨h.1, h.2.1, h.2.2⟩, fun h => ⟨h.legal, h.ne_here, h.ne_up⟩⟩

theorem proper_of_mem_steps {path : Path} (hup : (".." : RawText) ∉ path.segments) {name : RawText}
    (h : name ∈ path.steps) : Proper name := by
  obtain ⟨hmem, hhere⟩ := List.mem_filter.mp h
  refine ⟨legal_of_mem_segments hmem, of_decide_eq_true hhere, ?_⟩
  rintro rfl
  exact hup hmem

/-! ### Texts as names -/

theorem separator_mem_iff {text : String} : separator ∈ (RawText.ofText text).bytes ↔ '/' ∈ text.toList :=
  RawText.mem_bytes_ofText rfl (by decide) text

theorem legal_ofText_iff {name : String} : Legal name ↔ name ≠ "" ∧ '/' ∉ name.toList := by
  rw [Legal, separator_mem_iff, Ne, RawText.ofText_inj]

theorem proper_ofText_iff {name : String} :
    Proper name ↔ (name ≠ "" ∧ '/' ∉ name.toList) ∧ name ≠ "." ∧ name ≠ ".." := by
  rw [← legal_ofText_iff]
  constructor
  · exact fun h => ⟨h.legal, fun heq => h.ne_here (congrArg _ heq), fun heq => h.ne_up (congrArg _ heq)⟩
  · exact fun h => ⟨h.1, fun heq => h.2.1 (RawText.ofText_injective heq),
      fun heq => h.2.2 (RawText.ofText_injective heq)⟩

/-! ### Putting paths together -/

theorem eq_append_of_endsInSeparator {path : Path} (h : path.endsInSeparator = true) :
    ∃ before, path.text.bytes = before ++ [separator] := by
  obtain ⟨before, hbefore⟩ := List.getLast?_eq_some_iff.mp (of_decide_eq_true h)
  exact ⟨before, hbefore⟩

theorem segments_join (base : Path) {other : Path} (h : other.isAbsolute = false) :
    (base.join other).segments = base.segments ++ other.segments := by
  have hsegments (path : Path) : path.segments = pieces path.text.bytes := rfl
  unfold join
  rw [h, hsegments, hsegments, hsegments]
  by_cases hempty : base.text.isEmpty
  · have hbase : base.text = "" := RawText.isEmpty_iff.mp hempty
    simp [hbase]
    rfl
  by_cases hends : base.endsInSeparator
  · obtain ⟨before, hbefore⟩ := eq_append_of_endsInSeparator hends
    have hnone : pieces [] = [] := rfl
    simp only [hends, Bool.or_true, if_true, Bool.false_eq_true, if_false, RawText.bytes_append, hbefore]
    rw [List.append_assoc, List.singleton_append, pieces_append, pieces_append, hnone,
      List.append_nil]
  · simp only [hempty, hends, Bool.or_false, Bool.false_eq_true, if_false, RawText.bytes_append]
    have hslash : RawText.bytes "/" = [separator] := rfl
    rw [hslash, List.append_assoc, List.singleton_append, pieces_append]

theorem steps_join (base : Path) {other : Path} (h : other.isAbsolute = false) :
    (base.join other).steps = base.steps ++ other.steps := by
  rw [steps, segments_join base h, List.filter_append, steps, steps]

theorem isAbsolute_join (base : Path) {other : Path} (h : other.isAbsolute = false) :
    (base.join other).isAbsolute = base.isAbsolute := by
  unfold join
  rw [h]
  by_cases hempty : base.text.isEmpty
  · have hbase : base.text = "" := RawText.isEmpty_iff.mp hempty
    have hother : other.text.bytes.head? ≠ some separator := of_decide_eq_false h
    simp [isAbsolute, hbase, hother]
  have hne : base.text.bytes ≠ [] := fun hnil =>
    hempty (RawText.isEmpty_iff.mpr (RawText.bytes_eq_nil_iff.mp hnil))
  obtain ⟨first, rest, htext⟩ := List.exists_cons_of_ne_nil hne
  split
  · contradiction
  · split <;> simp [isAbsolute, htext]

/-- A path that is a text leads where it is shown to lead. -/
theorem mk_shown {path : Path} (h : path.text.IsText) : (⟨path.shown⟩ : Path) = path := congrArg Path.mk h

theorem isText_join {base other : Path} (hbase : base.text.IsText) (hother : other.text.IsText) :
    (base.join other).text.IsText := by
  unfold join
  split
  · exact hother
  split
  · exact hbase.append hother
  · exact (hbase.append (RawText.isText_ofText "/")).append hother

/-! ### Separators at the end -/

theorem pieces_of_separators {bytes : List UInt8} (h : ∀ byte ∈ bytes, byte = separator) : pieces bytes = [] := by
  induction bytes with
  | nil => rfl
  | cons byte rest ih =>
      obtain rfl := h byte (List.mem_cons_self ..)
      have hrest := ih fun other hother => h other (List.mem_cons_of_mem _ hother)
      have hall := pieces_append [] rest
      rw [List.nil_append] at hall
      rw [hall, hrest]
      rfl

theorem pieces_append_separators (bytes : List UInt8) {separators : List UInt8}
    (h : ∀ byte ∈ separators, byte = separator) : pieces (bytes ++ separators) = pieces bytes := by
  cases separators with
  | nil => rw [List.append_nil]
  | cons byte rest =>
      obtain rfl := h byte (List.mem_cons_self ..)
      rw [pieces_append, pieces_of_separators fun other hother => h other (List.mem_cons_of_mem _ hother),
        List.append_nil]

/-- What is dropped at the end of a path is separators. -/
theorem exists_dropped (path : Path) : ∃ dropped : List UInt8, (∀ byte ∈ dropped, byte = separator) ∧
    path.text.bytes = (path.text.bytes.reverse.dropWhile (· = separator)).reverse ++ dropped := by
  refine ⟨(path.text.bytes.reverse.takeWhile (· = separator)).reverse, fun byte hbyte => ?_, ?_⟩
  · have hall := List.all_eq_true.mp List.all_takeWhile byte (List.mem_reverse.mp hbyte)
    exact of_decide_eq_true hall
  · rw [← List.reverse_append, List.takeWhile_append_dropWhile, List.reverse_reverse]

theorem dropTrailingSeparators_spec (path : Path) :
    path.dropTrailingSeparators.segments = path.segments ∧
      path.dropTrailingSeparators.isAbsolute = path.isAbsolute := by
  obtain ⟨dropped, hdropped, htext⟩ := exists_dropped path
  unfold dropTrailingSeparators
  split
  · exact ⟨rfl, rfl⟩
  generalize (path.text.bytes.reverse.dropWhile (· = separator)).reverse = kept at htext ⊢
  have hsegments : path.segments = pieces kept := by
    rw [segments, ← pieces, htext, pieces_append_separators kept hdropped]
  cases kept with
  | nil =>
      dsimp only
      split
      · next hroot => exact ⟨hsegments.symm, hroot.symm⟩
      · exact ⟨rfl, rfl⟩
  | cons first rest =>
      refine ⟨?_, ?_⟩
      · rw [hsegments, segments, ← pieces]
      · rw [isAbsolute, isAbsolute, htext]
        rfl

/-! ### Components -/

theorem isAbsolute_of_legal {name : RawText} (h : Legal name) :
    (⟨name⟩ : Path).isAbsolute = false := by
  apply decide_eq_false
  intro hhead
  exact h.2 (List.mem_of_mem_head? hhead)

theorem segments_of_legal {name : RawText} (h : Legal name) : (⟨name⟩ : Path).segments = [name] :=
  pieces_of_legal h

/-- What can stand before the names among the components of a path. -/
def IsLead (lead : List Component) : Prop := lead = [] ∨ lead = [.here] ∨ lead = [.root]

theorem filter_ofSegment {segments : List RawText} (h : (".." : RawText) ∉ segments) :
    (segments.map Component.ofSegment).filter (· ≠ .here) =
      (segments.filter (· ≠ ("." : RawText))).map .name := by
  induction segments with
  | nil => rfl
  | cons segment rest ih =>
      obtain ⟨hup, hrest⟩ := List.ne_and_not_mem_of_not_mem_cons h
      by_cases hhere : segment = "."
      · simpa [Component.ofSegment, hhere] using ih hrest
      · simpa [Component.ofSegment, hhere, Ne.symm hup] using ih hrest

theorem components_eq {path : Path} (h : (".." : RawText) ∉ path.segments) :
    ∃ lead, IsLead lead ∧ (lead = [.root] ↔ path.isAbsolute = true) ∧
      path.components = lead ++ path.steps.map .name := by
  have hnamed := filter_ofSegment h
  unfold components
  by_cases habsolute : path.isAbsolute = true
  · refine ⟨[.root], .inr (.inr rfl), by simp [habsolute], ?_⟩
    rw [if_pos habsolute, hnamed]
    rfl
  rw [if_neg habsolute]
  rcases hsegments : path.segments with _ | ⟨first, rest⟩
  · refine ⟨[], .inl rfl, by simp [habsolute], ?_⟩
    simp [steps, hsegments]
  rw [hsegments] at hnamed h
  obtain ⟨hup, hrest⟩ := List.ne_and_not_mem_of_not_mem_cons h
  by_cases hhere : first = "."
  · refine ⟨[.here], .inr (.inl rfl), by simp [habsolute], ?_⟩
    have hlater := filter_ofSegment hrest
    simp [Component.ofSegment, steps, hsegments, hhere] at hlater ⊢
    exact hlater
  · refine ⟨[], .inl rfl, by simp [habsolute], ?_⟩
    have hfirst : Component.ofSegment first = .name first := by
      simp [Component.ofSegment, hhere, Ne.symm hup]
    rw [List.map_cons, hfirst] at hnamed ⊢
    rw [steps, hsegments, List.nil_append, ← hnamed]

theorem ofComponents_lead {lead : List Component} (hlead : IsLead lead) {names : List RawText}
    (hlegal : ∀ name ∈ names, Legal name) :
    ((ofComponents (lead ++ names.map .name)).isAbsolute = true ↔ lead = [.root]) ∧
      ∃ first : List RawText, (∀ segment ∈ first, segment = ".") ∧
        (ofComponents (lead ++ names.map .name)).segments = first ++ names := by
  induction names using List.reverseRecOn with
  | nil =>
      rcases hlead with rfl | rfl | rfl
      · exact ⟨by decide, [], by decide, by decide⟩
      · exact ⟨by decide, [("." : RawText)], by decide, by decide⟩
      · exact ⟨by decide, [], by decide, by decide⟩
  | append_singleton names name ih =>
      obtain ⟨habsolute, first, hfirst, hsegments⟩ :=
        ih fun other hother => hlegal other (List.mem_append_left _ hother)
      have hname := hlegal name (List.mem_append_right _ (List.mem_singleton_self name))
      have hrelative := isAbsolute_of_legal hname
      have hjoin : ofComponents (lead ++ (names ++ [name]).map .name) =
          (ofComponents (lead ++ names.map .name)).join ⟨name⟩ := by
        rw [List.map_append, ← List.append_assoc, ofComponents, List.foldl_append]
        rfl
      rw [hjoin, isAbsolute_join _ hrelative, segments_join _ hrelative, hsegments,
        segments_of_legal hname]
      exact ⟨habsolute, first, hfirst, List.append_assoc first names [name]⟩

/-- The path to what is above, made of the components that are left, goes through the names that are left. -/
theorem ofComponents_spec {lead : List Component} (hlead : IsLead lead) {names : List RawText}
    (hproper : ∀ name ∈ names, Proper name) {path : Path}
    (hpath : path = ofComponents (lead ++ names.map .name)) :
    (path.isAbsolute = true ↔ lead = [.root]) ∧ (".." : RawText) ∉ path.segments ∧ path.steps = names := by
  obtain ⟨habsolute, first, hfirst, hsegments⟩ :=
    ofComponents_lead hlead fun name hname => (hproper name hname).legal
  subst hpath
  refine ⟨habsolute, ?_, ?_⟩
  · rw [hsegments]
    intro hmem
    rcases List.mem_append.mp hmem with hhere | hname
    · exact absurd (hfirst _ hhere) (by decide)
    · exact (hproper _ hname).ne_up rfl
  · rw [steps, hsegments, List.filter_append, List.filter_eq_nil_iff.mpr, List.nil_append,
      List.filter_eq_self.mpr]
    · exact fun name hname => decide_eq_true (hproper name hname).ne_here
    · intro segment hsegment
      simp [hfirst segment hsegment]

end Path

end Assay
