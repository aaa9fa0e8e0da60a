import Assay.Config.Reader
import Mathlib.Data.List.Pairwise
import Mathlib.Tactic.MkIffOfInductiveProp

/-!
# Objects laid over defaults

A section of the settings has named fields, and an object says something of some of them. It is enough to know of a
reader that every field comes to what the object says of it, and to its default where the object says nothing: what
reordering, leaving out and repeating members comes to follows for every section at once.
-/

namespace Assay

namespace Json

/-- The members of an object, whose names are texts. -/
abbrev Members := List (String × Json)

def Members.entries (members : Members) : List (Option String × Json) :=
  members.map fun (name, value) => (some name, value)

def ofMembers (members : Members) : Json := .object members.entries

/-- All that is given under one name. -/
def Members.given (members : Members) (name : String) : List Json :=
  (members.filter fun entry => entry.1 = name).map Prod.snd

namespace Members

theorem given_append (before after : Members) (name : String) :
    (before ++ after : Members).given name = before.given name ++ after.given name := by
  rw [given, List.filter_append, List.map_append, given, given]

theorem given_cons_self (name : String) (value : Json) (rest : Members) :
    given ((name, value) :: rest) name = value :: rest.given name := by
  simp [given]

theorem given_cons_of_ne {name other : String} (h : name ≠ other) (value : Json) (rest : Members) :
    given ((name, value) :: rest) other = rest.given other := by
  simp [given, h]

theorem given_perm {members members' : Members} (h : members.Perm members') (name : String) :
    (members.given name).Perm (members'.given name) :=
  (h.filter _).map _

theorem given_ne_nil_of_mem {members : Members} {name : String} (h : name ∈ members.map Prod.fst) :
    members.given name ≠ [] := by
  obtain ⟨⟨_, value⟩, hmem, rfl⟩ := List.mem_map.mp h
  exact List.ne_nil_of_mem (List.mem_map_of_mem (List.mem_filter.mpr ⟨hmem, by simp⟩))

end Members

end Json

namespace Config

open Json (Members)

namespace Reader

theorem fields?_ofMembers (names : List String) (members : Members) :
    fields? names (.ofMembers members) = names.mapM fun name => member? name members.entries := by
  have hnamed : members.entries.all fun entry => entry.1.isSome := by
    simp [Members.entries]
  exact if_pos hnamed

theorem named_of_fields? {names : List String} {entries : List (Option String × Json)}
    {values : List (Option Json)} (h : fields? names (.object entries) = some values) :
    ∃ members : Members, entries = members.entries := by
  by_cases hnamed : entries.all fun entry => entry.1.isSome
  · refine ⟨entries.map fun entry => (entry.1.getD "", entry.2), ?_⟩
    rw [Members.entries, List.map_map]
    refine (List.map_congr_left fun entry hentry => ?_).trans (List.map_id entries) |>.symm
    obtain ⟨name, hname⟩ := Option.isSome_iff_exists.mp (List.all_eq_true.mp hnamed entry hentry)
    exact Prod.ext (by simp [hname]) rfl
  · have hnone : fields? names (.object entries) = none := if_neg hnamed
    rw [hnone] at h
    cases h

theorem member?_entries (name : String) (members : Members) :
    member? name members.entries =
      match members.given name with
      | [] => some none
      | [value] => some (some value)
      | _ => none := by
  have hfilter : members.entries.filter (fun entry => entry.1 = some name) =
      (members.filter fun entry => entry.1 = name).map fun (name, value) => (some name, value) := by
    rw [Members.entries, List.filter_map]
    congr 1
    apply List.filter_congr
    intro entry _
    simp
  rw [member?, hfilter, Members.given]
  generalize members.filter _ = kept
  rcases kept with _ | ⟨entry, _ | ⟨other, rest⟩⟩ <;> rfl

end Reader

/-- A field of a section: what it is called in documents, how it is read, and where it is kept. -/
structure Field (σ : Type) where
  name : String
  Value : Type
  read : Json → Option Value
  get : σ → Value
  set : Value → σ → σ
  get_set : ∀ value settings, get (set value settings) = value := by intros; rfl

namespace Field

variable {σ : Type}

def reset (field : Field σ) (defaults settings : σ) : σ := field.set (field.get defaults) settings

/-- What these members say of a field. Members that repeat say nothing, not even that it has its default. -/
inductive Says (field : Field σ) (defaults : σ) (members : Members) : field.Value → Prop
  | silent (hgiven : members.given field.name = []) : Says field defaults members (field.get defaults)
  | spoken {document : Json} {value : field.Value} (hgiven : members.given field.name = [document])
      (hread : field.read document = some value) : Says field defaults members value

theorem says_iff {field : Field σ} {defaults : σ} {members : Members} {value : field.Value} :
    field.Says defaults members value ↔
      ((Reader.member? field.name members.entries).bind
        (Reader.field field.read (field.get defaults))) = some value := by
  rw [Reader.member?_entries]
  constructor
  · intro hsaid
    cases hsaid with
    | silent hgiven => simp [hgiven, Reader.field]
    | spoken hgiven hread => simp [hgiven, Reader.field, hread]
  · intro hread
    rcases hgiven : members.given field.name with _ | ⟨document, _ | ⟨other, rest⟩⟩
    · rw [hgiven] at hread
      obtain rfl : field.get defaults = value := Option.some.inj hread
      exact .silent hgiven
    · rw [hgiven] at hread
      exact .spoken hgiven hread
    · rw [hgiven] at hread
      cases hread

/-- Neither field is what the other one is called, or where it is kept. -/
@[mk_iff]
structure Independent (field other : Field σ) : Prop where
  name_ne : field.name ≠ other.name
  get_set : ∀ value settings, field.get (other.set value settings) = field.get settings
  get_set' : ∀ value settings, other.get (field.set value settings) = other.get settings

theorem Independent.symm {field other : Field σ} (h : field.Independent other) : other.Independent field :=
  ⟨h.name_ne.symm, h.get_set', h.get_set⟩

end Field

/-- A reader that lays what an object says over defaults. Of an object in which some name is no text, nothing comes. -/
structure Overlay (σ : Type) where
  read? : Json → Option σ
  defaults : σ
  fields : List (Field σ)
  named : ∀ {entries : List (Option String × Json)} {settings : σ}, read? (.object entries) = some settings →
    ∃ members : Members, entries = members.entries
  independent : fields.Pairwise Field.Independent
  read?_eq_some_iff : ∀ {members : Members} {settings : σ}, read? (.ofMembers members) = some settings ↔
    ∀ field ∈ fields, field.Says defaults members (field.get settings)

namespace Field

variable {σ : Type} {field : Field σ} {defaults : σ} {members members' : Members} {value : field.Value}

theorem Says.perm (h : field.Says defaults members value)
    (hperm : (members.given field.name).Perm (members'.given field.name)) :
    field.Says defaults members' value := by
  cases h with
  | silent hgiven => exact .silent (List.nil_perm.mp (hgiven ▸ hperm))
  | spoken hgiven hread => exact .spoken (List.singleton_perm.mp (hgiven ▸ hperm)).symm hread

/-- Of a field that is among the members, they say nothing but what is read there. -/
theorem Says.read_of_append {before after : Members} {document : Json}
    (h : field.Says defaults (before ++ (field.name, document) :: after) value) :
    before.given field.name = [] ∧ after.given field.name = [] ∧ field.read document = some value := by
  have hgiven := Members.given_append before ((field.name, document) :: after) field.name
  rw [Members.given_cons_self] at hgiven
  cases h with
  | silent hnone => exact absurd (hgiven.symm.trans hnone) (by simp)
  | @spoken other _ hone hread =>
      obtain ⟨hbefore, hrest⟩ | ⟨hbefore, hrest⟩ := List.append_eq_singleton_iff.mp (hgiven.symm.trans hone)
      · obtain ⟨rfl, hafter⟩ := List.cons.inj hrest
        exact ⟨hbefore, hafter, hread⟩
      · exact absurd hrest (by simp)

theorem not_says_of_repeated {before after : Members} (document : Json)
    (h : field.name ∈ (before ++ after).map Prod.fst) :
    ¬ field.Says defaults (before ++ (field.name, document) :: after) value := by
  intro hsaid
  obtain ⟨hbefore, hafter, -⟩ := hsaid.read_of_append
  apply Members.given_ne_nil_of_mem h
  rw [Members.given_append, hbefore, hafter, List.append_nil]

end Field

/-! ### Changing an object -/

/-- The members are given in another order, or others that are not known are among them. -/
inductive Rearranged (names : List String) : Members → Members → Prop
  | reordered {members members' : Members} (h : members.Perm members') : Rearranged names members members'
  | added (before after : Members) {name : String} (value : Json) (h : name ∉ names) :
      Rearranged names (before ++ after) (before ++ (name, value) :: after)
  | removed (before after : Members) {name : String} (value : Json) (h : name ∉ names) :
      Rearranged names (before ++ (name, value) :: after) (before ++ after)

theorem given_append_cons_of_ne {name other : String} (h : name ≠ other) (before after : Members)
    (value : Json) :
    (before ++ (name, value) :: after : Members).given other = (before ++ after : Members).given other := by
  rw [Members.given_append, Members.given_cons_of_ne h, Members.given_append]

theorem Rearranged.given_perm {names : List String} {members members' : Members}
    (h : Rearranged names members members') {name : String} (hname : name ∈ names) :
    (members.given name).Perm (members'.given name) := by
  cases h with
  | reordered hperm => exact Members.given_perm hperm name
  | added before after value hunknown =>
      rw [given_append_cons_of_ne (ne_of_mem_of_not_mem hname hunknown).symm]
  | removed before after value hunknown =>
      rw [given_append_cons_of_ne (ne_of_mem_of_not_mem hname hunknown).symm]

namespace Overlay

variable {σ : Type} {overlay : Overlay σ} {field : Field σ} {members members' before after : Members}
  {settings : σ} {document : Json}

def names (overlay : Overlay σ) : List String := overlay.fields.map Field.name

theorem independent_of_ne (hfield : field ∈ overlay.fields) {other : Field σ}
    (hother : other ∈ overlay.fields) (hne : field ≠ other) : field.Independent other :=
  have : Std.Symm (@Field.Independent σ) := ⟨fun _ _ => Field.Independent.symm⟩
  overlay.independent.forall hfield hother hne

theorem says_of_read? (hread : overlay.read? (.ofMembers members) = some settings)
    (hfield : field ∈ overlay.fields) : field.Says overlay.defaults members (field.get settings) :=
  overlay.read?_eq_some_iff.mp hread field hfield

theorem read?_eq_none (hfield : field ∈ overlay.fields)
    (h : ∀ value, ¬ field.Says overlay.defaults members value) :
    overlay.read? (.ofMembers members) = none :=
  Option.eq_none_iff_forall_ne_some.mpr fun _ hread => h _ (says_of_read? hread hfield)

theorem read?_rearranged (hread : overlay.read? (.ofMembers members) = some settings)
    (h : Rearranged overlay.names members members') :
    overlay.read? (.ofMembers members') = some settings := by
  refine overlay.read?_eq_some_iff.mpr fun field hfield => ?_
  exact (says_of_read? hread hfield).perm (h.given_perm (List.mem_map_of_mem hfield))

/-- What is said of one field is changed, and so are the settings, in this field and in no other. -/
theorem read?_set (hread : overlay.read? (.ofMembers members) = some settings)
    (hfield : field ∈ overlay.fields)
    (hothers : ∀ name, field.name ≠ name → members'.given name = members.given name)
    {value : field.Value} (hsaid : field.Says overlay.defaults members' value) :
    overlay.read? (.ofMembers members') = some (field.set value settings) := by
  refine overlay.read?_eq_some_iff.mpr fun other hother => ?_
  by_cases hsame : field = other
  · subst hsame
    rwa [field.get_set]
  · have hindependent := independent_of_ne hfield hother hsame
    rw [hindependent.get_set']
    refine (says_of_read? hread hother).perm ?_
    rw [hothers _ hindependent.name_ne]

/-- Nothing comes of an object in which a field cannot be read. -/
theorem read?_unread (hfield : field ∈ overlay.fields) (h : field.read document = none) :
    overlay.read? (.ofMembers (before ++ (field.name, document) :: after)) = none := by
  refine read?_eq_none hfield fun value hsaid => ?_
  rw [hsaid.read_of_append.2.2] at h
  cases h

theorem read?_replaced
    (hread : overlay.read? (.ofMembers (before ++ (field.name, document) :: after)) = some settings)
    (hfield : field ∈ overlay.fields) (other : Json) :
    overlay.read? (.ofMembers (before ++ (field.name, other) :: after)) =
      (field.read other).map (field.set · settings) := by
  obtain ⟨hbefore, hafter, -⟩ := (says_of_read? hread hfield).read_of_append
  have hgiven : (before ++ (field.name, other) :: after : Members).given field.name = [other] := by
    rw [Members.given_append, Members.given_cons_self, hbefore, hafter, List.nil_append]
  cases hother : field.read other with
  | none => exact read?_unread hfield hother
  | some value =>
      refine read?_set hread hfield (fun name hne => ?_) (.spoken hgiven hother)
      rw [given_append_cons_of_ne hne, given_append_cons_of_ne hne]

theorem read?_erased
    (hread : overlay.read? (.ofMembers (before ++ (field.name, document) :: after)) = some settings)
    (hfield : field ∈ overlay.fields) :
    overlay.read? (.ofMembers (before ++ after)) = some (field.reset overlay.defaults settings) := by
  obtain ⟨hbefore, hafter, -⟩ := (says_of_read? hread hfield).read_of_append
  have hgiven : (before ++ after : Members).given field.name = [] := by
    rw [Members.given_append, hbefore, hafter, List.append_nil]
  refine read?_set hread hfield (fun name hne => ?_) (.silent hgiven)
  rw [given_append_cons_of_ne hne]

theorem read?_repeated (hfield : field ∈ overlay.fields)
    (h : field.name ∈ (before ++ after).map Prod.fst) (document : Json) :
    overlay.read? (.ofMembers (before ++ (field.name, document) :: after)) = none :=
  read?_eq_none hfield fun _ => Field.not_says_of_repeated document h

end Overlay

end Config

end Assay
