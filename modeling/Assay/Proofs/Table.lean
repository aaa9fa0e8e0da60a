import Assay.Table
import Mathlib.Data.List.Induction

/-!
# Putting many entries into a table

Two tables that the same entries are put into, one after the other, do not only come to hold the same values:
they come to hold them in the same order.
-/

namespace Assay

namespace Table

variable {κ α β : Type} [DecidableEq κ]

/-- Puts in one entry after the other. -/
def putAll (table : Table κ α) (entries : List (κ × α)) : Table κ α :=
  entries.foldl (fun table entry => table.put entry.1 entry.2) table

@[simp]
theorem putAll_nil (table : Table κ α) : table.putAll [] = table := rfl

@[simp]
theorem putAll_cons (table : Table κ α) (entry : κ × α) (entries : List (κ × α)) :
    table.putAll (entry :: entries) = (table.put entry.1 entry.2).putAll entries := rfl

theorem putAll_append (table : Table κ α) (first second : List (κ × α)) :
    table.putAll (first ++ second) = (table.putAll first).putAll second :=
  List.foldl_append

theorem mem_putInto {key : κ} {value : α} {entries : List (κ × α)} {entry : κ × α}
    (h : entry ∈ putInto key value entries) : entry ∈ entries ∨ entry = (key, value) := by
  induction entries with
  | nil => exact .inr (List.mem_singleton.mp h)
  | cons first rest ih =>
      rw [putInto] at h
      split at h
      · rcases List.mem_cons.mp h with rfl | hmem
        · exact .inr rfl
        · exact .inl (.tail _ hmem)
      · rcases List.mem_cons.mp h with rfl | hmem
        · exact .inl (.head _)
        · rcases ih hmem with hold | hnew
          · exact .inl (.tail _ hold)
          · exact .inr hnew

theorem mem_of_find?_eq_some {table : Table κ α} {key : κ} {value : α}
    (h : table.find? key = some value) : (key, value) ∈ table.entries := by
  obtain ⟨entry, hentry, rfl⟩ := Option.map_eq_some_iff.mp h
  obtain rfl : entry.1 = key := by simpa using List.find?_some hentry
  exact List.mem_of_find?_eq_some hentry

theorem find?_eq_some_of_mem {table : Table κ α} {key : κ} {value : α} (hnodup : table.keys.Nodup)
    (h : (key, value) ∈ table.entries) : table.find? key = some value := by
  obtain ⟨entries⟩ := table
  simp only [keys, find?] at hnodup h ⊢
  induction entries with
  | nil => cases h
  | cons entry rest ih =>
      obtain ⟨hfresh, hrest⟩ := List.nodup_cons.mp hnodup
      rcases List.mem_cons.mp h with rfl | hmem
      · simp
      · have hne : ¬ entry.1 = key := by
          rintro rfl
          exact hfresh (List.mem_map.mpr ⟨_, hmem, rfl⟩)
        rw [List.find?_cons_of_neg (by simpa using hne)]
        exact ih hrest hmem

theorem mem_keys_iff {table : Table κ α} {key : κ} : key ∈ table.keys ↔ table.find? key ≠ none := by
  rw [find?, ne_eq, Option.map_eq_none_iff, List.find?_eq_none]
  simp [keys]

theorem find?_filterKeys (table : Table κ α) (keep : κ → Bool) {key : κ} (h : keep key = true) :
    (table.filterKeys keep).find? key = table.find? key := by
  rw [filterKeys, find?, find?, List.find?_filter]
  congr 2
  funext entry
  by_cases hkey : entry.1 = key
  · simp [hkey, h]
  · simp [hkey]

theorem put_eq_self {table : Table κ α} {key : κ} {value : α} (h : table.find? key = some value) :
    table.put key value = table := by
  obtain ⟨entries⟩ := table
  refine congrArg Table.mk ?_
  induction entries with
  | nil => cases h
  | cons entry rest ih =>
      by_cases hkey : entry.1 = key
      · subst hkey
        simp only [find?, List.find?_cons, decide_true, Option.map_some, Option.some.injEq] at h
        rw [putInto, if_pos rfl, ← h]
      · simp only [find?, List.find?_cons, hkey, decide_false] at h
        rw [putInto, if_neg hkey, ih h]

theorem putInto_putInto (key : κ) (old new : α) (entries : List (κ × α)) :
    putInto key new (putInto key old entries) = putInto key new entries := by
  induction entries with
  | nil => simp [putInto]
  | cons entry rest ih =>
      by_cases hkey : entry.1 = key
      · simp [putInto, hkey]
      · simp [putInto, hkey, ih]

theorem putInto_comm {key other : κ} (hne : key ≠ other) (value new : α) {entries : List (κ × α)}
    (hmem : key ∈ entries.map Prod.fst) :
    putInto key value (putInto other new entries) =
      putInto other new (putInto key value entries) := by
  induction entries with
  | nil => cases hmem
  | cons entry rest ih =>
      by_cases hkey : entry.1 = key
      · subst hkey
        simp [putInto, hne]
      by_cases hother : entry.1 = other
      · subst hother
        simp [putInto, Ne.symm hne]
      have hrest : key ∈ rest.map Prod.fst := by
        rcases List.mem_cons.mp hmem with heq | hmem
        · exact absurd heq.symm hkey
        · exact hmem
      simp [putInto, hkey, hother, ih hrest]

theorem mem_keys_put {table : Table κ α} {key other : κ} {value : α}
    (h : key ∈ table.keys) : key ∈ (table.put other value).keys := by
  rw [keys_put]
  split
  · exact h
  · exact List.mem_append_left _ h

theorem self_mem_keys_put (table : Table κ α) (key : κ) (value : α) :
    key ∈ (table.put key value).keys := by
  rw [keys_put]
  split
  · assumption
  · exact List.mem_append_right _ (List.mem_singleton_self key)

theorem put_putAll {table : Table κ α} {key : κ} (value : α) {entries : List (κ × α)}
    (hmem : key ∈ table.keys) (hother : key ∉ entries.map Prod.fst) :
    (table.putAll entries).put key value = (table.put key value).putAll entries := by
  induction entries generalizing table with
  | nil => rfl
  | cons entry rest ih =>
      have hne : key ≠ entry.1 := fun heq => hother (heq ▸ List.mem_cons_self ..)
      have hrest : key ∉ rest.map Prod.fst := fun hmem => hother (List.mem_cons_of_mem _ hmem)
      have hcomm : (table.put entry.1 entry.2).put key value =
          (table.put key value).put entry.1 entry.2 :=
        congrArg Table.mk (putInto_comm hne value entry.2 hmem)
      rw [putAll_cons, putAll_cons, ih (mem_keys_put hmem) hrest, hcomm]

/-- To put in what a table holds after a change is to make the change after that. -/
theorem putAll_putInto (table : Table κ α) (key : κ) (value : α) {entries : List (κ × α)}
    (hnodup : (entries.map Prod.fst).Nodup) :
    table.putAll (putInto key value entries) = (table.putAll entries).put key value := by
  induction entries generalizing table with
  | nil => rfl
  | cons entry rest ih =>
      obtain ⟨hfresh, hrest⟩ := List.nodup_cons.mp hnodup
      by_cases hkey : entry.1 = key
      · subst hkey
        have htwice : (table.put entry.1 entry.2).put entry.1 value = table.put entry.1 value :=
          congrArg Table.mk (putInto_putInto entry.1 entry.2 value table.entries)
        rw [putAll_cons, put_putAll value (self_mem_keys_put table _ _) hfresh, htwice, putInto,
          if_pos rfl, putAll_cons]
      · rw [putInto, if_neg hkey, putAll_cons, putAll_cons, ih _ hrest]

theorem map_putInto (f : α → β) (key : κ) (value : α) (entries : List (κ × α)) :
    (putInto key value entries).map (fun entry => (entry.1, f entry.2)) =
      putInto key (f value) (entries.map fun entry => (entry.1, f entry.2)) := by
  induction entries with
  | nil => rfl
  | cons entry rest ih =>
      by_cases hkey : entry.1 = key
      · simp [putInto, hkey]
      · simp [putInto, hkey, ih]

theorem putInto_of_not_mem {key : κ} (value : α) {entries : List (κ × α)}
    (h : key ∉ entries.map Prod.fst) : putInto key value entries = entries ++ [(key, value)] := by
  induction entries with
  | nil => rfl
  | cons entry rest ih =>
      have hne : ¬ entry.1 = key := fun heq => h (heq ▸ List.mem_cons_self ..)
      have hrest : key ∉ rest.map Prod.fst := fun hmem => h (List.mem_cons_of_mem _ hmem)
      rw [putInto, if_neg hne, ih hrest, List.cons_append]

/-- Entries for different keys stay as they are and where they are. -/
theorem entries_putAll_empty {entries : List (κ × α)} (h : (entries.map Prod.fst).Nodup) :
    ((empty : Table κ α).putAll entries).entries = entries := by
  induction entries using List.reverseRecOn with
  | nil => rfl
  | append_singleton rest entry ih =>
      rw [List.map_append, List.map_singleton] at h
      obtain ⟨hnodup, _, hapart⟩ := List.nodup_append.mp h
      have hrest := ih hnodup
      have hfresh : entry.1 ∉ rest.map Prod.fst := by
        intro hmem
        exact hapart _ hmem _ (List.mem_singleton_self entry.1) rfl
      rw [putAll_append, putAll_cons, putAll_nil, put, hrest, putInto_of_not_mem _ hfresh]

/-- In which order entries for different keys are put makes no difference to what is found. -/
theorem find?_putAll_perm {entries others : List (κ × α)} (h : entries.Perm others)
    (hnodup : (entries.map Prod.fst).Nodup) (key : κ) :
    ((empty : Table κ α).putAll entries).find? key = (empty.putAll others).find? key := by
  have hothers : (others.map Prod.fst).Nodup := (h.map Prod.fst).nodup_iff.mp hnodup
  have hkeys {some : List (κ × α)} (hsome : (some.map Prod.fst).Nodup) :
      ((empty : Table κ α).putAll some).keys.Nodup := by
    rw [keys, entries_putAll_empty hsome]
    exact hsome
  apply Option.ext
  intro value
  constructor
  · intro hfind
    have hmem := mem_of_find?_eq_some hfind
    rw [entries_putAll_empty hnodup, h.mem_iff] at hmem
    exact find?_eq_some_of_mem (hkeys hothers) (by rwa [entries_putAll_empty hothers])
  · intro hfind
    have hmem := mem_of_find?_eq_some hfind
    rw [entries_putAll_empty hothers, ← h.mem_iff] at hmem
    exact find?_eq_some_of_mem (hkeys hnodup) (by rwa [entries_putAll_empty hnodup])

theorem filter_putInto (keep : κ → Bool) (key : κ) (value : α) (entries : List (κ × α)) :
    (putInto key value entries).filter (fun entry => keep entry.1) =
      if keep key = true then putInto key value (entries.filter fun entry => keep entry.1)
      else entries.filter fun entry => keep entry.1 := by
  induction entries with
  | nil => by_cases hkeep : keep key = true <;> simp [putInto, hkeep]
  | cons entry rest ih =>
      by_cases hkey : entry.1 = key
      · subst hkey
        by_cases hkeep : keep entry.1 = true <;> simp [putInto, hkeep]
      · rw [putInto, if_neg hkey]
        by_cases hkeep : keep key = true <;> by_cases hentry : keep entry.1 = true <;>
          simp [hentry, hkeep, ih, putInto, hkey]

theorem nodup_keys_putAll {table : Table κ α} (h : table.keys.Nodup) (entries : List (κ × α)) :
    (table.putAll entries).keys.Nodup := by
  induction entries generalizing table with
  | nil => exact h
  | cons entry rest ih => exact ih (nodup_keys_put h entry.1 entry.2)

/-- Entries can be gathered in a table of their own first, and then be put in from there. -/
theorem putAll_gathered (table : Table κ β) (f : α → β) (entries : List (κ × α)) :
    table.putAll (((empty : Table κ α).putAll entries).entries.map fun entry => (entry.1, f entry.2)) =
      table.putAll (entries.map fun entry => (entry.1, f entry.2)) := by
  induction entries using List.reverseRecOn with
  | nil => rfl
  | append_singleton rest entry ih =>
      have hempty : (empty : Table κ α).keys.Nodup := List.nodup_nil
      have hnodup := nodup_keys_putAll hempty rest
      rw [putAll_append, List.map_append, putAll_append, ← ih]
      simp only [putAll_cons, putAll_nil, put, map_putInto]
      rw [putAll_putInto]
      · rfl
      · rw [List.map_map]
        exact hnodup

/-- The last entry for a key decides. -/
theorem find?_putAll (table : Table κ α) (entries : List (κ × α)) (key : κ) :
    (table.putAll entries).find? key =
      ((entries.filter fun entry => entry.1 = key).getLast?.map Prod.snd).or (table.find? key) := by
  induction entries using List.reverseRecOn with
  | nil => rfl
  | append_singleton rest entry ih =>
      rw [putAll_append, putAll_cons, putAll_nil, find?_put, List.filter_append]
      by_cases hkey : entry.1 = key
      · simp [hkey]
      · simpa [hkey] using ih

end Table

end Assay
