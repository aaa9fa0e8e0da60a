import Assay.Proofs.Files.Growth
import Mathlib.Data.List.Basic

/-!
# Parts of a file system

Which number a file gets depends on all the files that were made before it, wherever they are. So two file
systems are only ever the same on a part of them up to these numbers. The order counts, since a directory is
listed in it.
-/

namespace Assay

/-- A node without the number of its file. -/
def Node.anonymous : Node → Node
  | .file _ content executable => .file ⟨0⟩ content executable
  | node => node

/-- The same, except that a file may be another one with the same content. -/
def Node.SameContent (left right : Node) : Prop :=
  left.anonymous = right.anonymous

theorem Node.SameContent.sameShape {left right : Node} (h : left.SameContent right) :
    left.SameShape right := by
  cases left <;> cases right <;> simp_all [Node.SameContent, Node.anonymous, Node.SameShape]

/-- A part of a file system, by its locations. -/
abbrev Region := Location → Bool

namespace Region

def below (home : Location) : Region := fun location => home.isPrefixOf location

def outside (region : Region) : Region := fun location => !region location

def union (left right : Region) : Region := fun location => left location || right location

def Within (part whole : Region) : Prop :=
  ∀ location, part location = true → whole location = true

def Disjoint (left right : Region) : Prop :=
  ∀ location, left location = true → right location = false

theorem Disjoint.within_outside {left right : Region} (h : Disjoint left right) :
    Within left right.outside := by
  intro location hleft
  rw [outside, h location hleft]
  rfl

theorem Disjoint.union {left right other : Region} (hleft : Disjoint left other)
    (hright : Disjoint right other) : Disjoint (left.union right) other := by
  intro location hunion
  rcases Bool.or_eq_true_iff.mp hunion with h | h
  · exact hleft location h
  · exact hright location h

/-- Neither of two homes holds the other one, so nothing is below both. -/
theorem disjoint_below {home other : Location} (hhome : ¬ home <+: other)
    (hother : ¬ other <+: home) : Disjoint (below home) (below other) := by
  intro location hbelow
  rw [below, List.isPrefixOf_iff_prefix] at hbelow
  rw [below, Bool.eq_false_iff]
  intro hboth
  rw [List.isPrefixOf_iff_prefix] at hboth
  rcases List.prefix_or_prefix_of_prefix hbelow hboth with h | h
  · exact hhome h
  · exact hother h

end Region

instance instDecidableEqFiles : DecidableEq Files := fun left right =>
  decidable_of_iff (left.nodes = right.nodes ∧ left.streams = right.streams ∧
    left.nextFile = right.nextFile ∧ left.directory = right.directory) (by
      cases left
      cases right
      simp)

namespace Files

/-- What there is in a region, in the order of the table. -/
def view (region : Region) (files : Files) : List (Location × Node) :=
  (files.nodes.entries.filter fun entry => region entry.1).map fun entry =>
    (entry.1, entry.2.anonymous)

/-- Nobody who only looks at the region can tell the two apart. -/
structure SameOn (region : Region) (files other : Files) : Prop where
  directory : files.directory = other.directory
  view : files.view region = other.view region

instance (region : Region) (files other : Files) : Decidable (SameOn region files other) :=
  decidable_of_iff (files.directory = other.directory ∧ files.view region = other.view region)
    ⟨fun h => ⟨h.1, h.2⟩, fun h => ⟨h.directory, h.view⟩⟩

namespace SameOn

variable {region part : Region} {files other third : Files}

theorem refl (region : Region) (files : Files) : SameOn region files files := ⟨rfl, rfl⟩

theorem trans (hfirst : SameOn region files other) (hsecond : SameOn region other third) :
    SameOn region files third :=
  ⟨hfirst.directory.trans hsecond.directory, hfirst.view.trans hsecond.view⟩

end SameOn

theorem view_eq_filter {region part : Region} (h : region.Within part) (files : Files) :
    files.view region = (files.view part).filter fun entry => region entry.1 := by
  rw [view, view, List.filter_map, List.filter_filter]
  congr 1
  apply List.filter_congr
  intro entry _
  cases hregion : region entry.1 with
  | false => simp [hregion]
  | true => simp [hregion, h entry.1 hregion]

theorem SameOn.mono {region part : Region} {files other : Files} (h : SameOn region files other)
    (hpart : part.Within region) : SameOn part files other where
  directory := h.directory
  view := by rw [view_eq_filter hpart, view_eq_filter hpart, h.view]

/-! ### What a view tells -/

theorem find?_view {region : Region} {location : Location} (h : region location = true)
    (files : Files) :
    ((files.view region).find? fun entry => entry.1 = location).map Prod.snd =
      (files.nodes.find? location).map Node.anonymous := by
  rw [view, List.find?_map, Option.map_map, List.find?_filter, Table.find?, Option.map_map]
  have hsame : (fun entry : Location × Node =>
      (region entry.1 = true ∧ ((fun found : Location × Node => decide (found.1 = location)) ∘
        fun entry : Location × Node => (entry.1, entry.2.anonymous)) entry = true : Bool)) =
      fun entry => decide (entry.1 = location) := by
    funext entry
    by_cases hkey : entry.1 = location
    · simp [hkey, h]
    · simp [hkey]
  rw [hsame]
  rfl

theorem SameOn.node? {region : Region} {files other : Files} (h : SameOn region files other)
    {location : Location} (hregion : region location = true) :
    Option.Rel Node.SameContent (files.node? location) (other.node? location) := by
  rw [Files.node?, Files.node?]
  by_cases hroot : location.isEmpty
  · rw [if_pos hroot, if_pos hroot]
    exact .some rfl
  rw [if_neg hroot, if_neg hroot]
  have hfound : (files.nodes.find? location).map Node.anonymous =
      (other.nodes.find? location).map Node.anonymous := by
    rw [← find?_view hregion, ← find?_view hregion, h.view]
  rcases hleft : files.nodes.find? location with _ | left <;>
    rcases hright : other.nodes.find? location with _ | right <;>
    rw [hleft, hright] at hfound
  · exact .none
  · cases hfound
  · cases hfound
  · exact .some (Option.some.inj hfound)

theorem SameOn.node?_ne_none {region : Region} {files other : Files} (h : SameOn region files other)
    {location : Location} (hregion : region location = true) (hnode : files.node? location ≠ none) :
    other.node? location ≠ none := by
  have halike := h.node? hregion
  generalize files.node? location = left, other.node? location = right at halike hnode
  cases halike with
  | none => exact absurd rfl hnode
  | some _ => simp

theorem SameOn.names {region : Region} {files other : Files} (h : SameOn region files other)
    {location : Location} (hentries : ∀ name, region (location ++ [name]) = true) :
    files.names location = other.names location := by
  have hview : ∀ files : Files, files.names location =
      (files.view region).filterMap fun entry =>
        if entry.1.dropLast = location then entry.1.getLast? else none := by
    intro files
    rw [Files.names, Table.keys, Files.view, List.filterMap_map, List.filterMap_map,
      List.filterMap_filter]
    apply List.filterMap_congr
    intro entry _
    cases hkey : entry.1.getLast? with
    | none => simp [hkey]
    | some name =>
        have hlast := List.dropLast_append_getLast? name hkey
        by_cases hlocation : entry.1.dropLast = location
        · have hregion := hentries name
          rw [← hlocation, hlast] at hregion
          simp [hregion]
        · simp [hlocation]
  rw [hview, hview, h.view]

/-! ### What a change does to a view -/

theorem view_put_of_mem {region : Region} {location : Location} (h : region location = true)
    (files : Files) (node : Node) :
    (files.put location node).view region =
      Table.putInto location node.anonymous (files.view region) := by
  rw [view, view, put, Table.put, ← Table.map_putInto, Table.filter_putInto, if_pos h]

theorem view_put_of_not_mem {region : Region} {location : Location} (h : region location = false)
    (files : Files) (node : Node) : (files.put location node).view region = files.view region := by
  rw [view, view, put, Table.put, Table.filter_putInto, if_neg (by simp [h])]

theorem SameOn.put {region : Region} {files other : Files} (h : SameOn region files other)
    {left right : Node} (hnode : left.SameContent right) (location : Location) :
    SameOn region (files.put location left) (other.put location right) where
  directory := h.directory
  view := by
    cases hregion : region location with
    | false => rw [view_put_of_not_mem hregion, view_put_of_not_mem hregion, h.view]
    | true => rw [view_put_of_mem hregion, view_put_of_mem hregion, h.view, hnode]

theorem sameOn_put_of_not_mem {region : Region} {location : Location} (h : region location = false)
    (files : Files) (node : Node) : SameOn region files (files.put location node) :=
  ⟨rfl, (view_put_of_not_mem h files node).symm⟩

end Files

end Assay
