import Assay.Proofs.Path.Steps

/-!
# Where a path leads by its text

With `.` and `..` resolved and no file looked at, a path leads from one location to another. A relative path comes
down to a number of steps up, from wherever it starts, and the names that it then goes through. It stays where it
starts if it never goes up, and those who start next to each other meet if it does.
-/

namespace Assay

/-- Where one segment leads. -/
def Location.step (location : Location) (segment : RawText) : Location :=
  if segment = "." then location else if segment = ".." then location.dropLast else location ++ [segment]

/-- A way from wherever one is: some steps up, and then down along these names. -/
structure Route where
  climb : Nat
  names : List RawText
deriving DecidableEq, Repr

namespace Route

/-- A step up takes back the last name, if there is one. -/
def step (route : Route) (segment : RawText) : Route :=
  if segment = "." then route
  else if segment = ".." then
    match route.names with
    | [] => ⟨route.climb + 1, []⟩
    | name :: names => ⟨route.climb, (name :: names).dropLast⟩
  else ⟨route.climb, route.names ++ [segment]⟩

/-- Where the way down starts. There is nothing above the root. -/
def anchor (route : Route) (base : Location) : Location :=
  base.take (base.length - route.climb)

def follow (route : Route) (base : Location) : Location := route.anchor base ++ route.names

theorem follow_step (route : Route) (segment : RawText) (base : Location) :
    (route.step segment).follow base = (route.follow base).step segment := by
  unfold step Location.step
  split
  · rfl
  split
  · rcases route with ⟨climb, _ | ⟨name, names⟩⟩
    · simp only [follow, anchor, List.append_nil, List.dropLast_eq_take, List.take_take, List.length_take]
      congr 1
      omega
    · exact (List.dropLast_append_of_ne_nil (List.cons_ne_nil name names)).symm
  · exact (List.append_assoc _ _ _).symm

theorem follow_foldl (route : Route) (segments : List RawText) (base : Location) :
    (segments.foldl step route).follow base = segments.foldl Location.step (route.follow base) := by
  induction segments generalizing route with
  | nil => rfl
  | cons segment segments ih =>
      rw [List.foldl_cons, List.foldl_cons, ih, follow_step]

theorem anchor_of_climb_eq_zero {route : Route} (h : route.climb = 0) (base : Location) :
    route.anchor base = base := by
  rw [anchor, h, Nat.sub_zero, List.take_length]

/-- One step up, and neighbours are in the same place. -/
theorem anchor_neighbours {route : Route} (h : route.climb ≠ 0) (above : Location) (left right : RawText) :
    route.anchor (above ++ [left]) = route.anchor (above ++ [right]) := by
  have hshort : (above ++ [left]).length - route.climb ≤ above.length := by
    rw [List.length_append, List.length_singleton]
    omega
  have hlength : (above ++ [right]).length = (above ++ [left]).length := by
    rw [List.length_append, List.length_append, List.length_singleton, List.length_singleton]
  rw [anchor, anchor, hlength, List.take_append_of_le_length hshort, List.take_append_of_le_length hshort]

end Route

namespace Path

/-- Where the path leads from `base`, if it is taken as it is written. -/
def resolve (path : Path) (base : Location) : Location :=
  path.segments.foldl Location.step (if path.isAbsolute then [] else base)

/-- What a relative path comes down to. -/
def route (path : Path) : Route := path.segments.foldl Route.step ⟨0, []⟩

/-- Relative, and it does not go up, not even to come back. -/
def Inward (path : Path) : Prop := path.isAbsolute = false ∧ path.route.climb = 0
deriving Decidable

theorem resolve_of_isAbsolute {path : Path} (h : path.isAbsolute = true) (base other : Location) :
    path.resolve base = path.resolve other := by
  rw [resolve, resolve, if_pos h, if_pos h]

theorem resolve_of_relative {path : Path} (h : path.isAbsolute = false) (base : Location) :
    path.resolve base = path.route.follow base := by
  have hstart : Route.follow ⟨0, []⟩ base = base :=
    (List.append_nil _).trans (Route.anchor_of_climb_eq_zero rfl base)
  rw [resolve, h, if_neg Bool.false_ne_true, route, Route.follow_foldl, hstart]

theorem resolve_join (base path : Path) (directory : Location) :
    (base.join path).resolve directory = path.resolve (base.resolve directory) := by
  cases habsolute : path.isAbsolute with
  | false =>
      have hrelative : path.resolve (base.resolve directory) =
        path.segments.foldl Location.step (base.resolve directory) := by
          rw [resolve, habsolute, if_neg Bool.false_ne_true]
      rw [hrelative, resolve, resolve, segments_join base habsolute, isAbsolute_join base habsolute,
        List.foldl_append]
  | true =>
      have hjoin : base.join path = path := if_pos habsolute
      rw [hjoin]
      exact resolve_of_isAbsolute habsolute _ _

theorem Inward.resolve {path : Path} (h : path.Inward) (base : Location) :
    path.resolve base = base ++ path.route.names := by
  rw [resolve_of_relative h.1, Route.follow, Route.anchor_of_climb_eq_zero h.2]

/-- What leaves the place it starts in leads neighbours to the same place. -/
theorem resolve_neighbours {path : Path} (h : ¬ path.Inward) (above : Location) (left right : RawText) :
    path.resolve (above ++ [left]) = path.resolve (above ++ [right]) := by
  cases habsolute : path.isAbsolute with
  | false =>
      have hclimb : path.route.climb ≠ 0 := fun hzero => h ⟨habsolute, hzero⟩
      rw [resolve_of_relative habsolute, resolve_of_relative habsolute, Route.follow,
        Route.anchor_neighbours hclimb above left right, Route.follow]
  | true => exact resolve_of_isAbsolute habsolute _ _

/-- The path leads from two places to the same one, and that is not below either of them. -/
structure Meets (path : Path) (left right : Location) : Prop where
  same : path.resolve left = path.resolve right
  outside : ¬ left <+: path.resolve left
  outside' : ¬ right <+: path.resolve left

theorem Inward.not_meets {path : Path} (h : path.Inward) (left right : Location) :
    ¬ path.Meets left right := by
  intro hmeets
  apply hmeets.outside
  rw [h.resolve]
  exact List.prefix_append _ _

/-- Neighbours meet wherever they leave their places, unless that is in the place of one of them. -/
theorem meets_neighbours_iff {path : Path} {above : Location} {left right : RawText} :
    path.Meets (above ++ [left]) (above ++ [right]) ↔
      ¬ path.Inward ∧ ¬ above ++ [left] <+: path.resolve (above ++ [left]) ∧
        ¬ above ++ [right] <+: path.resolve (above ++ [left]) := by
  constructor
  · intro hmeets
    exact ⟨fun hinward => hinward.not_meets _ _ hmeets, hmeets.outside, hmeets.outside'⟩
  · rintro ⟨houtward, houtside, houtside'⟩
    exact ⟨resolve_neighbours houtward above left right, houtside, houtside'⟩

example : Inward ⟨"bin"⟩ ∧ Inward ⟨"./a/../b"⟩ ∧ ¬ Inward ⟨"a/../.."⟩ ∧ ¬ Inward ⟨"/bin"⟩ := by
  decide

/-! ### The path of a location -/

theorem pieces_intercalate {names : List RawText} (h : ∀ name ∈ names, Legal name) :
    pieces (RawText.intercalate "/" names).bytes = names := by
  induction names with
  | nil => rfl
  | cons name rest ih =>
      have hname := pieces_of_legal (h name (List.mem_cons_self ..))
      have hrest := ih fun other hother => h other (List.mem_cons_of_mem _ hother)
      cases rest with
      | nil => simpa [RawText.intercalate] using hname
      | cons next rest =>
          have hcons : (RawText.intercalate "/" (name :: next :: rest)).bytes =
              name.bytes ++ separator :: (RawText.intercalate "/" (next :: rest)).bytes := by
            rw [RawText.intercalate_cons_cons, RawText.append_assoc]
            rfl
          rw [hcons, pieces_append, hname, hrest, List.singleton_append]

theorem isAbsolute_path (location : Location) : location.path.isAbsolute = true := rfl

theorem segments_path {location : Location} (h : ∀ name ∈ location, Legal name) :
    location.path.segments = location := by
  have hslash : location.path.text.bytes = [] ++ separator :: (RawText.intercalate "/" location).bytes := rfl
  rw [segments, ← pieces, hslash, pieces_append, pieces_intercalate h]
  rfl

theorem foldl_step_of_proper {names : List RawText} (h : ∀ name ∈ names, Proper name) (start : Location) :
    names.foldl Location.step start = start ++ names := by
  induction names generalizing start with
  | nil => exact (List.append_nil start).symm
  | cons name rest ih =>
      have hname := h name (List.mem_cons_self ..)
      have hstep : start.step name = start ++ [name] := by
        rw [Location.step, if_neg hname.ne_here, if_neg hname.ne_up]
      rw [List.foldl_cons, ih (fun other hother => h other (List.mem_cons_of_mem _ hother)), hstep,
        List.append_assoc, List.singleton_append]

theorem resolve_path {location : Location} (h : ∀ name ∈ location, Proper name) (base : Location) :
    location.path.resolve base = location := by
  rw [resolve, isAbsolute_path, if_pos rfl, segments_path fun name hname => (h name hname).legal,
    foldl_step_of_proper h, List.nil_append]

theorem resolve_of_proper {name : RawText} (h : Proper name) (base : Location) :
    (⟨name⟩ : Path).resolve base = base ++ [name] := by
  rw [resolve, isAbsolute_of_legal h.legal, if_neg Bool.false_ne_true, segments_of_legal h.legal]
  exact foldl_step_of_proper (List.forall_mem_singleton.mpr h) base

end Path

end Assay
