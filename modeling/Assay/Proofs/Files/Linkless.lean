import Assay.Proofs.Files.Footprint
import Assay.Proofs.Path.Steps

/-!
# Files without links

Where there are no links, a path leads where it says: along its own names, one below the other. Making a
directory and listing one then look at nothing but what is on this way, and at the entries at the end of it.
-/

namespace Assay

def Node.isLink : Node → Bool
  | .link _ => true
  | _ => false

namespace Files

def Linkless (files : Files) : Prop :=
  ∀ location target, files.node? location ≠ some (.link target)

/-- There are no links, and the entries of every directory have names that a path can go through. -/
structure Plain (files : Files) : Prop where
  linkless : files.Linkless
  names : ∀ location, ∀ name ∈ files.names location, Path.Proper name

theorem plain_of_entries {files : Files} (h : ∀ entry ∈ files.nodes.entries,
    entry.2.isLink = false ∧ ∀ name ∈ entry.1, Path.Proper name) : files.Plain where
  linkless location target hnode := by
    cases location with
    | nil => simp [node?] at hnode
    | cons name rest =>
        have hlink := (h _ (Table.mem_of_find?_eq_some hnode)).1
        simp [Node.isLink] at hlink
  names location name hname := by
    obtain ⟨key, hkey, hlast⟩ := List.mem_filterMap.mp hname
    obtain ⟨entry, hentry, rfl⟩ := List.mem_map.mp hkey
    by_cases hparent : entry.1.dropLast = location
    · rw [if_pos hparent] at hlast
      exact (h entry hentry).2 name (List.mem_of_getLast? hlast)
    · rw [if_neg hparent] at hlast
      cases hlast

/-- Where a path leads, if none of its names is a link. -/
def destination (base : Location) (path : Path) : Location :=
  (if path.isAbsolute then [] else base) ++ path.steps

/-- The walk comes to this place or to nothing. -/
def Walk.EndsAt (finish : Location) : Walk → Prop
  | .arrived (.occupied location _) | .arrived (.vacant location) => location = finish
  | .blocked _ => True
  | .redirected _ _ => False

variable {files : Files}

/-! ### Lookups -/

theorem advance_linkless (h : files.Linkless) (follow : Bool) {segments : List RawText}
    (hup : (".." : RawText) ∉ segments) (start : Location) :
    (∀ read ∈ files.advanceReads start segments, read <+: start ++ segments.filter (· ≠ ("." : RawText))) ∧
      (files.advance follow start segments).EndsAt (start ++ segments.filter (· ≠ ("." : RawText))) := by
  induction segments generalizing start with
  | nil =>
      refine ⟨fun read hread => ?_, ?_⟩
      · obtain rfl : read = start := List.mem_singleton.mp hread
        exact List.prefix_append read []
      · rw [advance]
        cases files.node? start with
        | none => trivial
        | some node => exact (List.append_nil start).symm
  | cons segment rest ih =>
      obtain ⟨hfirst, hrest⟩ := List.ne_and_not_mem_of_not_mem_cons hup
      rw [advanceReads, advance]
      by_cases hhere : segment = "."
      · rw [if_pos hhere, if_pos hhere, List.filter_cons_of_neg (by simpa using hhere)]
        exact ih hrest start
      rw [if_neg hhere, if_neg hhere, if_neg (Ne.symm hfirst), if_neg (Ne.symm hfirst),
        List.filter_cons_of_pos (by simpa using hhere)]
      by_cases hlong : nameLimit < segment.size
      · rw [if_pos hlong, if_pos hlong]
        refine ⟨fun read hread => ?_, trivial⟩
        cases hread
      simp only [if_neg hlong]
      have hfinish : start ++ segment :: rest.filter (· ≠ ("." : RawText)) =
          (start ++ [segment]) ++ rest.filter (· ≠ ("." : RawText)) := by simp
      rw [hfinish]
      obtain ⟨hreads, hwalk⟩ := ih hrest (start ++ [segment])
      have hnext : start ++ [segment] <+: (start ++ [segment]) ++ rest.filter (· ≠ ("." : RawText)) :=
        List.prefix_append _ _
      -- Whatever cannot be gone through has to be the last.
      have hends (place : Place) (fault : Fault)
          (hplace : (Walk.arrived place).EndsAt (start ++ [segment])) :
          (if rest.isEmpty then Walk.arrived place else .blocked fault).EndsAt
            ((start ++ [segment]) ++ rest.filter (· ≠ ("." : RawText))) := by
        by_cases hempty : rest.isEmpty = true
        · rw [if_pos hempty, List.isEmpty_iff.mp hempty, List.filter_nil, List.append_nil]
          exact hplace
        · rw [if_neg hempty]
          trivial
      have honly : ∀ read ∈ [start ++ [segment]],
          read <+: (start ++ [segment]) ++ rest.filter (· ≠ ("." : RawText)) := by
        intro read hread
        obtain rfl := List.mem_singleton.mp hread
        exact hnext
      rcases hnode : files.node? (start ++ [segment]) with _ | _ | ⟨id, content, executable⟩ | target <;>
        simp only
      · exact ⟨honly, hends (.vacant _) .notFound rfl⟩
      · refine ⟨fun read hread => ?_, hwalk⟩
        rcases List.mem_cons.mp hread with rfl | hlater
        · exact hnext
        · exact hreads read hlater
      · exact ⟨honly, hends (.occupied _ _) .notADirectory rfl⟩
      · exact absurd hnode (h _ _)

theorem walk_linkless (h : files.Linkless) (follow : Bool) {segments : List RawText}
    (hup : (".." : RawText) ∉ segments) (links : Nat) (start : Location) :
    (∀ read ∈ files.walkReads follow links start segments,
        read <+: start ++ segments.filter (· ≠ ("." : RawText))) ∧
      ∀ location node, files.walk follow links start segments = .ok (.occupied location node) →
        location = start ++ segments.filter (· ≠ ("." : RawText)) := by
  obtain ⟨hreads, hends⟩ := advance_linkless h follow hup start
  unfold walkReads walk
  generalize files.advance follow start segments = walk at hends ⊢
  rcases walk with place | fault | ⟨again, names⟩
  · refine ⟨by simpa using hreads, fun location node hplace => ?_⟩
    obtain rfl : place = .occupied location node := Except.ok.inj hplace
    exact hends
  · exact ⟨by simpa using hreads, fun _ _ hplace => by cases hplace⟩
  · exact hends.elim

theorem Linkless.lookup (h : files.Linkless) (base : Location) {path : Path} {follow : Bool}
    (hup : (".." : RawText) ∉ path.segments) :
    (∀ read ∈ files.lookupReads base path follow, read <+: destination base path) ∧
      ∀ location node, files.lookup base path follow = .ok (.occupied location node) →
        location = destination base path := by
  have hseparator : (".." : RawText) ∉ path.way := by
    unfold Path.way
    split <;> simp [hup]
  have hsteps : path.way.filter (· ≠ ("." : RawText)) = path.steps := by
    unfold Path.way Path.steps
    split <;> simp
  obtain ⟨hreads, hends⟩ := walk_linkless h follow hseparator linkLimit
    (if path.isAbsolute then [] else base)
  rw [hsteps] at hreads hends
  refine ⟨fun read hread => ?_, fun location node hfound => ?_⟩
  · unfold lookupReads at hread
    unfold destination
    by_cases habsolute : path.isAbsolute
    · rw [if_pos habsolute] at hread hreads ⊢
      exact hreads read hread
    · rw [if_neg habsolute] at hread hreads ⊢
      rcases List.mem_cons.mp hread with rfl | hlater
      · exact List.prefix_append _ _
      · exact hreads read hlater
  · exact hends location node (walk_of_lookup hfound).2

/-! ### Making directories -/

theorem Linkless.grown {made : Files} (h : files.Linkless) (hgrown : Grown files made) :
    made.Linkless := by
  induction hgrown with
  | same => exact h
  | made _ hne _ ih =>
      intro location target
      rw [node?_put hne]
      split
      · simp
      · exact ih location target

theorem destination_eq {base : Location} {path other : Path}
    (habsolute : other.isAbsolute = path.isAbsolute) (hsegments : other.segments = path.segments) :
    destination base other = destination base path := by
  rw [destination, destination, Path.steps, Path.steps, habsolute, hsegments]

theorem Linkless.makeOrKeepReads (h : files.Linkless) (base : Location) {path : Path}
    (hup : (".." : RawText) ∉ path.segments) :
    (∀ read ∈ files.makeDirectoryReads base path, read <+: destination base path) ∧
      ∀ read ∈ files.makeOrKeepReads base path, read <+: destination base path := by
  obtain ⟨hsegments, habsolute⟩ := path.dropTrailingSeparators_spec
  have hmade : ∀ read ∈ files.makeDirectoryReads base path, read <+: destination base path := by
    rw [← destination_eq habsolute hsegments]
    exact (h.lookup base (hsegments ▸ hup)).1
  refine ⟨hmade, fun read hread => ?_⟩
  rcases List.mem_append.mp hread with hfirst | hkept
  · exact hmade read hfirst
  · split at hkept
    · cases hkept
    · exact (h.lookup base hup).1 read hkept

theorem Linkless.ensureFromReads (h : files.Linkless) {base : Location} {path : Path}
    {lead : List Path.Component} (hlead : Path.IsLead lead)
    (habsolute : path.isAbsolute = true ↔ lead = [.root]) (hup : (".." : RawText) ∉ path.segments) :
    ∀ read ∈ files.ensureFromReads base path
        (lead ++ path.steps.map Path.Component.name).reverse,
      read <+: destination base path := by
  have hproper : ∀ name ∈ path.steps, Path.Proper name := fun name =>
    Path.proper_of_mem_steps hup
  generalize hnames : path.steps = names at hproper
  induction names using List.reverseRecOn generalizing path with
  | nil => rcases hlead with rfl | rfl | rfl <;> exact (h.makeOrKeepReads base hup).2
  | append_singleton names name ih =>
      rw [List.map_append, ← List.append_assoc, List.reverse_append, List.map_singleton,
        List.reverse_singleton, List.singleton_append]
      obtain ⟨hmade, hkept⟩ := h.makeOrKeepReads base hup
      rcases habove : (lead ++ names.map Path.Component.name).reverse with _ | ⟨next, above⟩
      · exact hkept
      have hbefore := fun other hother => hproper other (List.mem_append_left _ hother)
      have hreverse : (next :: above).reverse = lead ++ names.map Path.Component.name := by
        rw [← habove, List.reverse_reverse]
      obtain ⟨habsolute', hup', hsteps⟩ :=
        Path.ofComponents_spec hlead hbefore (congrArg Path.ofComponents hreverse)
      have hparent := ih habsolute' hup' hsteps hbefore
      rw [habove] at hparent
      have habove : destination base (.ofComponents (next :: above).reverse) <+:
          destination base path := by
        have hsame : (Path.ofComponents (next :: above).reverse).isAbsolute = path.isAbsolute := by
          rw [Bool.eq_iff_iff, habsolute', habsolute]
        rw [destination, destination, hsame, hsteps, hnames, ← List.append_assoc]
        exact List.prefix_append _ _
      unfold Files.ensureFromReads
      split
      · intro read hread
        rcases List.mem_append.mp hread with hfirst | hlater
        · exact hmade read hfirst
        rcases List.mem_append.mp hlater with hmiddle | hlast
        · exact (hparent read hmiddle).trans habove
        have hgrown := grown_ensureFrom files base (.ofComponents (next :: above).reverse)
          (next :: above)
        split at hlast
        · next hresult =>
          rw [hresult] at hgrown
          exact ((h.grown hgrown).makeOrKeepReads base hup).2 read hlast
        · cases hlast
      · exact hkept

/-- Making a directory looks at nothing but the way to it. -/
theorem Linkless.ensureDirectoryReads (h : files.Linkless) (base : Location) {path : Path}
    (hup : (".." : RawText) ∉ path.segments) :
    ∀ read ∈ files.ensureDirectoryReads base path, read <+: destination base path := by
  obtain ⟨lead, hlead, habsolute, hcomponents⟩ := Path.components_eq hup
  unfold Files.ensureDirectoryReads
  split
  · exact fun read hread => by cases hread
  · rw [hcomponents]
    exact h.ensureFromReads hlead habsolute.symm hup

/-! ### Listing a directory -/

theorem Linkless.openDirectory (h : files.Linkless) {base location : Location} {path : Path}
    (hup : (".." : RawText) ∉ path.segments) (hopened : files.openDirectory base path = .ok location) :
    location = destination base path :=
  (h.lookup base hup).2 location _ (openDirectory_eq_ok_iff.mp hopened)

theorem destination_join (base : Location) (path : Path) {other : Path}
    (h : other.isAbsolute = false) :
    destination base (path.join other) = destination base path ++ other.steps := by
  rw [destination, destination, Path.isAbsolute_join path h, Path.steps_join path h,
    List.append_assoc]

/-- Listing a directory looks at nothing but the way to it and what is in it. -/
theorem Plain.listFilesReads (h : files.Plain) (base : Location) {path : Path}
    (hup : (".." : RawText) ∉ path.segments) :
    ∀ read ∈ files.listFilesReads base path,
      ∃ names, read <+: destination base path ++ names := by
  intro read hread
  rcases List.mem_append.mp hread with hfirst | hentry
  · exact ⟨[], by simpa using (h.linkless.lookup base hup).1 read hfirst⟩
  unfold Files.list at hentry
  rcases hdirectory : files.openDirectory base path with fault | location <;>
    rw [hdirectory] at hentry
  · cases hentry
  · obtain ⟨name, hname, hread⟩ := List.mem_flatMap.mp hentry
    have hproper := h.names location name hname
    have hrelative := Path.isAbsolute_of_legal hproper.legal
    have hentryUp : (".." : RawText) ∉ (path.join ⟨name⟩).segments := by
      rw [Path.segments_join path hrelative, Path.segments_of_legal hproper.legal]
      simp [hup, Ne.symm hproper.ne_up]
    refine ⟨(⟨name⟩ : Path).steps, ?_⟩
    rw [← destination_join base path hrelative]
    exact (h.linkless.lookup base hentryUp).1 read hread

end Files

end Assay
