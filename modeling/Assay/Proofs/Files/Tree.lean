import Assay.Proofs.Files.Descent
import Assay.Proofs.Path.Steps
import Mathlib.Data.List.Nodup

/-!
# Files that hang together

A table of nodes can hold anything, but a file system is a tree: nothing is there twice, nothing is there without
the directory above it, and everything goes by a name that a path can go through. What is in a directory is then a
matter of what is found there, and in which order the nodes are kept makes no difference to it.
-/

namespace Assay

namespace Files

variable {files other : Files} {location : Location} {name : RawText}

/-- Whatever there is goes by names that a path can go through. -/
def WellNamed (files : Files) : Prop :=
  ∀ key ∈ files.nodes.keys, ∀ name ∈ key, Path.Proper name
deriving Decidable

/-- The nodes make up a tree below the root. -/
structure Tree (files : Files) : Prop where
  named : files.WellNamed
  short : ∀ key ∈ files.nodes.keys, ∀ name ∈ key, name.size ≤ nameLimit
  distinct : files.nodes.keys.Nodup
  /-- The root is not kept, and the rest is in directories. -/
  rooted : ∀ key ∈ files.nodes.keys, key ≠ [] ∧ files.DirectoryAt key.dropLast

instance (files : Files) : Decidable files.Tree :=
  decidable_of_iff
    (files.WellNamed ∧ (∀ key ∈ files.nodes.keys, ∀ name ∈ key, name.size ≤ nameLimit) ∧
      files.nodes.keys.Nodup ∧ ∀ key ∈ files.nodes.keys, key ≠ [] ∧ files.DirectoryAt key.dropLast)
    ⟨fun h => ⟨h.1, h.2.1, h.2.2.1, h.2.2.2⟩, fun h => ⟨h.named, h.short, h.distinct, h.rooted⟩⟩

/-! ### What there is -/

theorem mem_keys_iff (h : location ≠ []) : location ∈ files.nodes.keys ↔ files.node? location ≠ none := by
  have hnode : files.node? location = files.nodes.find? location := by simp [node?, h]
  rw [hnode, Table.mem_keys_iff]

theorem WellNamed.proper (h : files.WellNamed) (hnode : files.node? location ≠ none) :
    ∀ name ∈ location, Path.Proper name := by
  intro name hname
  exact h location ((mem_keys_iff (List.ne_nil_of_mem hname)).mpr hnode) name hname

/-- What a directory is said to hold is what is found there. -/
theorem mem_names_iff : name ∈ files.names location ↔ files.node? (location ++ [name]) ≠ none := by
  rw [← mem_keys_iff (List.append_ne_nil_of_right_ne_nil _ (List.cons_ne_nil _ _)), names, List.mem_filterMap]
  constructor
  · rintro ⟨key, hkey, hlast⟩
    split at hlast
    · next habove =>
      obtain ⟨before, rfl⟩ := List.getLast?_eq_some_iff.mp hlast
      rw [List.dropLast_concat] at habove
      exact habove ▸ hkey
    · cases hlast
  · intro hkey
    exact ⟨_, hkey, by simp⟩

theorem WellNamed.proper_of_mem_names (h : files.WellNamed) (hname : name ∈ files.names location) :
    Path.Proper name :=
  h.proper (mem_names_iff.mp hname) name (List.mem_append_right _ (List.mem_singleton_self name))

namespace Tree

theorem nodup_names (h : files.Tree) (location : Location) : (files.names location).Nodup := by
  refine List.Nodup.filterMap ?_ h.distinct
  intro key other name hkey hother
  have hsplit {key : Location}
      (hmem : name ∈ if key.dropLast = location then key.getLast? else none) : key = location ++ [name] := by
    split at hmem
    · next habove =>
      obtain ⟨before, rfl⟩ := List.getLast?_eq_some_iff.mp hmem
      rw [← habove, List.dropLast_concat]
    · cases hmem
  rw [hsplit hkey, hsplit hother]

/-- Above a directory there are directories all the way up. -/
theorem standing (h : files.Tree) (hdirectory : files.DirectoryAt location) : files.Standing location := by
  induction location using List.reverseRecOn with
  | nil => exact standing_nil files
  | append_singleton above name ih =>
      obtain ⟨readable, hnode⟩ := hdirectory
      have hkey : above ++ [name] ∈ files.nodes.keys :=
        (mem_keys_iff (by simp)).mpr (by simp [hnode])
      have habove := (h.rooted _ hkey).2
      rw [List.dropLast_concat] at habove
      exact (ih habove).concat ⟨readable, hnode⟩

/-- Nothing changes with the order in which the nodes are kept. -/
theorem node?_of_perm (h : files.Tree) (hperm : other.nodes.entries.Perm files.nodes.entries)
    (location : Location) : other.node? location = files.node? location := by
  have hdistinct : other.nodes.keys.Nodup := (hperm.map Prod.fst).nodup_iff.mpr h.distinct
  unfold node?
  split
  · rfl
  · apply Option.ext
    intro node
    constructor
    · intro hnode
      exact Table.find?_eq_some_of_mem h.distinct (hperm.mem_iff.mp (Table.mem_of_find?_eq_some hnode))
    · intro hnode
      exact Table.find?_eq_some_of_mem hdistinct (hperm.mem_iff.mpr (Table.mem_of_find?_eq_some hnode))

theorem of_perm (h : files.Tree) (hperm : other.nodes.entries.Perm files.nodes.entries) : other.Tree := by
  have hkeys : other.nodes.keys.Perm files.nodes.keys := hperm.map Prod.fst
  refine ⟨fun key hkey => h.named key (hkeys.mem_iff.mp hkey), fun key hkey => h.short key (hkeys.mem_iff.mp hkey),
    hkeys.nodup_iff.mpr h.distinct, fun key hkey => ?_⟩
  rw [DirectoryAt, h.node?_of_perm hperm]
  exact h.rooted key (hkeys.mem_iff.mp hkey)

end Tree

end Files

end Assay
