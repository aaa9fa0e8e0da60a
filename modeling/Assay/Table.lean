/-!
# Tables

Results are shown in the order in which they were first known, whatever is put in for the same key later.
-/

namespace Assay

/-- A finite map in the order in which its keys were first put. -/
structure Table (κ α : Type) where
  entries : List (κ × α)
deriving DecidableEq, Repr

namespace Table

variable {κ α : Type} [DecidableEq κ]

def empty : Table κ α := ⟨[]⟩

instance : Inhabited (Table κ α) := ⟨empty⟩

def keys (table : Table κ α) : List κ :=
  table.entries.map Prod.fst

def size (table : Table κ α) : Nat :=
  table.entries.length

def isEmpty (table : Table κ α) : Bool :=
  table.entries.isEmpty

def find? (table : Table κ α) (key : κ) : Option α :=
  (table.entries.find? fun entry => entry.1 = key).map Prod.snd

def putInto (key : κ) (value : α) : List (κ × α) → List (κ × α)
  | [] => [(key, value)]
  | entry :: rest => if entry.1 = key then (key, value) :: rest else entry :: putInto key value rest

/-- A key that is there keeps its place and changes its value. -/
def put (table : Table κ α) (key : κ) (value : α) : Table κ α :=
  ⟨putInto key value table.entries⟩

def filterKeys (table : Table κ α) (keep : κ → Bool) : Table κ α :=
  ⟨table.entries.filter fun entry => keep entry.1⟩

def mapKeys (table : Table κ α) (rename : κ → κ) : Table κ α :=
  ⟨table.entries.map fun entry => (rename entry.1, entry.2)⟩

def mapValues (table : Table κ α) (change : α → α) : Table κ α :=
  ⟨table.entries.map fun entry => (entry.1, change entry.2)⟩

@[simp]
theorem find?_empty (key : κ) : (empty : Table κ α).find? key = none := rfl

theorem find?_putInto (key : κ) (value : α) (other : κ) (entries : List (κ × α)) :
    ((putInto key value entries).find? fun entry => entry.1 = other).map Prod.snd =
      if key = other then some value
      else (entries.find? fun entry => entry.1 = other).map Prod.snd := by
  induction entries with
  | nil => by_cases heq : key = other <;> simp [putInto, heq]
  | cons entry rest ih =>
    by_cases hkey : entry.1 = key
    · subst hkey
      by_cases heq : entry.1 = other <;> simp [putInto, heq]
    · rw [putInto, if_neg hkey, List.find?_cons, List.find?_cons]
      by_cases hother : entry.1 = other
      · have hne : ¬ key = other := fun h => hkey (hother.trans h.symm)
        simp [hother, hne]
      · simpa [hother] using ih

@[simp]
theorem find?_put (table : Table κ α) (key : κ) (value : α) (other : κ) :
    (table.put key value).find? other = if key = other then some value else table.find? other :=
  find?_putInto key value other table.entries

theorem map_fst_putInto (key : κ) (value : α) (entries : List (κ × α)) :
    (putInto key value entries).map Prod.fst =
      if key ∈ entries.map Prod.fst then entries.map Prod.fst
      else entries.map Prod.fst ++ [key] := by
  induction entries with
  | nil => simp [putInto]
  | cons entry rest ih =>
    by_cases hkey : entry.1 = key
    · simp [putInto, hkey]
    · have hne : ¬ key = entry.1 := fun h => hkey h.symm
      by_cases hmem : key ∈ rest.map Prod.fst
      · rw [if_pos hmem] at ih
        rw [putInto, if_neg hkey, List.map_cons, ih, if_pos (by simp [hmem])]
        rfl
      · rw [if_neg hmem] at ih
        rw [putInto, if_neg hkey, List.map_cons, ih, if_neg (by simp [hne, hmem])]
        rfl

theorem keys_put (table : Table κ α) (key : κ) (value : α) :
    (table.put key value).keys = if key ∈ table.keys then table.keys else table.keys ++ [key] :=
  map_fst_putInto key value table.entries

theorem nodup_keys_put {table : Table κ α} (h : table.keys.Nodup) (key : κ) (value : α) :
    (table.put key value).keys.Nodup := by
  rw [keys_put]
  split
  · exact h
  · next hmem =>
    rw [List.nodup_append]
    refine ⟨h, by simp, ?_⟩
    intro other hother last hlast
    rintro rfl
    exact hmem (List.mem_singleton.mp hlast ▸ hother)

end Table

end Assay
