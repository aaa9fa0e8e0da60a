import Assay.Outcome
import Assay.Proofs.Table
import Mathlib.Algebra.GroupWithZero.Nat
import Mathlib.Data.Finset.Card

/-!
# Counting results

Every result has one of the verdicts, so it is counted once, and leaving out the verdicts that do not occur
leaves out nobody. What a set holds is settled by the outcome that was recorded last for each label, and so is
everything that can be asked about it.
-/

namespace Assay

namespace Table

variable {κ α : Type} [DecidableEq κ]

theorem mem_keys_putAll {table : Table κ α} {entries : List (κ × α)} {key : κ} :
    key ∈ (table.putAll entries).keys ↔ key ∈ table.keys ∨ key ∈ entries.map Prod.fst := by
  induction entries generalizing table with
  | nil => simp
  | cons entry rest ih =>
      rw [putAll_cons, ih, keys_put, List.map_cons, List.mem_cons]
      by_cases hknown : entry.1 ∈ table.keys
      · rw [if_pos hknown]
        grind
      · rw [if_neg hknown, List.mem_append, List.mem_singleton, or_assoc]

/-- Tables in which the same is found hold the same, in whatever order. -/
theorem entries_perm_of_find?_eq {first second : Table κ α} (hfirst : first.keys.Nodup)
    (hsecond : second.keys.Nodup) (h : ∀ key, first.find? key = second.find? key) :
    first.entries.Perm second.entries := by
  rw [List.perm_ext_iff_of_nodup (List.Nodup.of_map _ hfirst) (List.Nodup.of_map _ hsecond)]
  rintro ⟨key, value⟩
  constructor
  · intro hmem
    exact mem_of_find?_eq_some ((h key).symm.trans (find?_eq_some_of_mem hfirst hmem))
  · intro hmem
    exact mem_of_find?_eq_some ((h key).trans (find?_eq_some_of_mem hsecond hmem))

/-- Entries are counted by looking up their keys. -/
theorem countP_entries {table : Table κ α} (h : table.keys.Nodup) (p : α → Bool) :
    table.entries.countP (fun entry => p entry.2) =
      table.keys.countP fun key => (table.find? key).any p := by
  rw [keys, List.countP_map]
  apply List.countP_congr
  rintro ⟨key, value⟩ hmem
  simp [find?_eq_some_of_mem h hmem]

end Table

namespace ResultSet

theorem sum_count (results : ResultSet) : (Verdict.all.map results.count).sum = results.size := by
  obtain ⟨entries⟩ := results
  simp only [Verdict.all, List.map_cons, List.map_nil, List.sum_cons, List.sum_nil, count, Table.size]
  induction entries with
  | nil => rfl
  | cons entry rest ih =>
      simp only [List.countP_cons, List.length_cons]
      cases entry.2.verdict <;> simp <;> omega

theorem sum_tally (results : ResultSet) : (results.tally.map Prod.snd).sum = results.size := by
  have hpositive : ∀ counts : List (Verdict × Nat),
      ((counts.filter fun entry => 0 < entry.2).map Prod.snd).sum =
        (counts.map Prod.snd).sum := by
    intro counts
    induction counts with
    | nil => rfl
    | cons entry rest ih =>
        by_cases hentry : 0 < entry.2
        · rw [List.filter_cons_of_pos (by simpa using hentry), List.map_cons, List.map_cons,
            List.sum_cons, List.sum_cons, ih]
        · have hzero : entry.2 = 0 := Nat.eq_zero_of_not_pos hentry
          rw [List.filter_cons_of_neg (by simpa using hentry), List.map_cons, List.sum_cons, ih, hzero,
            Nat.zero_add]
  rw [tally, hpositive, List.map_map, ← sum_count]
  rfl

theorem mem_tally_iff {results : ResultSet} {verdict : Verdict} {count : Nat} :
    (verdict, count) ∈ results.tally ↔ 0 < count ∧ count = results.count verdict := by
  rw [tally, List.mem_filter]
  constructor
  · rintro ⟨hmem, hpositive⟩
    obtain ⟨other, -, heq⟩ := List.mem_map.mp hmem
    cases heq
    exact ⟨of_decide_eq_true hpositive, rfl⟩
  · rintro ⟨hpositive, rfl⟩
    exact ⟨List.mem_map.mpr ⟨verdict, verdict.mem_all, rfl⟩, decide_eq_true hpositive⟩

theorem nodup_tally (results : ResultSet) : (results.tally.map Prod.fst).Nodup := by
  have hsublist : (results.tally.map Prod.fst).Sublist
      ((Verdict.all.map fun verdict => (verdict, results.count verdict)).map Prod.fst) :=
    List.filter_sublist.map Prod.fst
  have hall : (Verdict.all.map fun verdict => (verdict, results.count verdict)).map Prod.fst = Verdict.all := by
    rw [List.map_map]
    exact List.map_id _
  exact (hall ▸ hsublist).nodup (by decide)

/-! ### A history of recordings -/

/-- What is held after these outcomes were recorded, the first of them first. -/
def ofHistory (history : List (String × Outcome)) : ResultSet :=
  history.foldl (fun results entry => (results.record entry.1 entry.2).2) .empty

/-- The outcome recorded last for the label. -/
def latest? (history : List (String × Outcome)) (label : String) : Option Outcome :=
  (history.filter fun entry => entry.1 = label).getLast?.map Prod.snd

def labels (history : List (String × Outcome)) : Finset String := (history.map Prod.fst).toFinset

/-- The labels that have come to this verdict in the end. -/
def labelsWith (history : List (String × Outcome)) (verdict : Verdict) : Finset String :=
  (labels history).filter fun label => (latest? history label).any fun outcome => outcome.verdict = verdict

variable {history other : List (String × Outcome)}

theorem ofHistory_eq_putAll (history : List (String × Outcome)) :
    ofHistory history = Table.empty.putAll history := rfl

theorem nodup_keys_ofHistory (history : List (String × Outcome)) : (ofHistory history).keys.Nodup := by
  have hempty : (Table.empty : ResultSet).keys.Nodup := List.nodup_nil
  exact Table.nodup_keys_putAll hempty history

theorem find?_ofHistory (history : List (String × Outcome)) (label : String) :
    (ofHistory history).find? label = latest? history label := by
  rw [ofHistory_eq_putAll, Table.find?_putAll, Table.find?_empty, Option.or_none, latest?]

theorem toFinset_keys_ofHistory (history : List (String × Outcome)) :
    (ofHistory history).keys.toFinset = labels history := by
  ext label
  rw [labels, List.mem_toFinset, List.mem_toFinset, ofHistory_eq_putAll, Table.mem_keys_putAll]
  simp [Table.keys, Table.empty]

theorem size_ofHistory (history : List (String × Outcome)) :
    (ofHistory history).size = (labels history).card := by
  rw [← toFinset_keys_ofHistory, List.toFinset_card_of_nodup (nodup_keys_ofHistory history), Table.keys,
    List.length_map, Table.size]

theorem isEmpty_ofHistory_iff : (ofHistory history).isEmpty = true ↔ history = [] := by
  have hsize : (ofHistory history).isEmpty = true ↔ (ofHistory history).size = 0 := by
    rw [Table.isEmpty, Table.size, List.isEmpty_iff, List.length_eq_zero_iff]
  rw [hsize, size_ofHistory, Finset.card_eq_zero, labels, List.toFinset_eq_empty_iff, List.map_eq_nil_iff]

theorem count_ofHistory (history : List (String × Outcome)) (verdict : Verdict) :
    (ofHistory history).count verdict = (labelsWith history verdict).card := by
  have hnodup := nodup_keys_ofHistory history
  have hlabels : labelsWith history verdict = ((ofHistory history).keys.filter fun label =>
      ((ofHistory history).find? label).any fun outcome => outcome.verdict = verdict).toFinset := by
    simp only [labelsWith, List.toFinset_filter, toFinset_keys_ofHistory, find?_ofHistory]
  rw [hlabels, List.toFinset_card_of_nodup (hnodup.filter _), ← List.countP_eq_length_filter,
    ← Table.countP_entries hnodup fun outcome => decide (outcome.verdict = verdict)]
  rfl

/-- The labels of a history are those for which something is the last. -/
theorem mem_labels_iff {label : String} : label ∈ labels history ↔ latest? history label ≠ none := by
  simp [labels, latest?]

theorem latest?_eq_of_perm (hperm : history.Perm other) (hnodup : (history.map Prod.fst).Nodup)
    (label : String) : latest? history label = latest? other label := by
  rw [← find?_ofHistory, ← find?_ofHistory, ofHistory_eq_putAll, ofHistory_eq_putAll]
  exact Table.find?_putAll_perm hperm hnodup label

/-- Two histories have left the same behind: the same outcomes, and the same counts. -/
structure SameResults (history other : List (String × Outcome)) : Prop where
  entries : (ofHistory history).entries.Perm (ofHistory other).entries
  size : (ofHistory history).size = (ofHistory other).size
  tally : (ofHistory history).tally = (ofHistory other).tally

theorem sameResults_of_latest?_eq (h : ∀ label, latest? history label = latest? other label) :
    SameResults history other := by
  have hlabels : labels history = labels other := by
    ext label
    rw [mem_labels_iff, mem_labels_iff, h]
  have hcount (verdict : Verdict) :
      (ofHistory history).count verdict = (ofHistory other).count verdict := by
    simp only [count_ofHistory, labelsWith, hlabels, h]
  constructor
  · refine Table.entries_perm_of_find?_eq (nodup_keys_ofHistory history) (nodup_keys_ofHistory other) ?_
    intro label
    rw [find?_ofHistory, find?_ofHistory, h]
  · rw [size_ofHistory, size_ofHistory, hlabels]
  · simp only [tally, hcount]

/-- The books of a result set. Whatever has been recorded, in whatever order: each recording gives back the last
outcome before it, what is found is the last outcome of all, and size and tally count labels by it. -/
theorem bookkeeping (history : List (String × Outcome)) :
    (∀ before entry after, history = before ++ entry :: after →
      ((ofHistory before).record entry.1 entry.2).1 = latest? before entry.1) ∧
    (∀ label, (ofHistory history).find? label = latest? history label) ∧
    (ofHistory history).size = (labels history).card ∧
    ((ofHistory history).isEmpty = true ↔ history = []) ∧
    (∀ verdict count, (verdict, count) ∈ (ofHistory history).tally ↔
      0 < count ∧ count = (labelsWith history verdict).card) ∧
    ((ofHistory history).tally.map Prod.fst).Nodup ∧
    ((ofHistory history).tally.map Prod.snd).sum = (ofHistory history).size ∧
    (∀ other, (∀ label, latest? history label = latest? other label) → SameResults history other) ∧
    (∀ other, history.Perm other → (history.map Prod.fst).Nodup → SameResults history other) := by
  refine ⟨fun before entry after _ => find?_ofHistory before entry.1, find?_ofHistory history,
    size_ofHistory history, isEmpty_ofHistory_iff, fun verdict count => ?_, nodup_tally _, sum_tally _,
    fun other => sameResults_of_latest?_eq, fun other hperm hnodup => ?_⟩
  · rw [mem_tally_iff, count_ofHistory]
  · exact sameResults_of_latest?_eq (latest?_eq_of_perm hperm hnodup)

/-- A label that was classified twice, and two histories that come to the same in the end. -/
theorem bookkeeping_overwritten :
    let compiled : Outcome := .compileFailure ⟨"make", ["all"]⟩
    let history : List (String × Outcome) := [("a", .success), ("c", compiled), ("c", .timeout none)]
    ((ofHistory (history.take 2)).record "c" (.timeout none)).1 = some compiled ∧
      (ofHistory history).size = 2 ∧ (ofHistory history).tally = [(.success, 1), (.timeout, 1)] ∧
      SameResults history [("c", .timeout none), ("a", .success)] := by
  intro compiled history
  obtain ⟨hrecord, -, -, -, -, -, -, hsame, -⟩ := bookkeeping history
  refine ⟨?_, by decide, by decide, hsame _ fun label => ?_⟩
  · rw [hrecord (history.take 2) ("c", .timeout none) [] rfl]
    decide
  · by_cases ha : label = "a"
    · subst ha
      decide
    by_cases hc : label = "c"
    · subst hc
      decide
    · simp [latest?, history, Ne.symm ha, Ne.symm hc]

end ResultSet

end Assay
