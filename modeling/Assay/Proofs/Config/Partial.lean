import Assay.Proofs.Config.Sections
import Assay.Proofs.Json
import Mathlib.Logic.Relation

/-!
# Settings that are given in part

What a settings file does not say has its default, on every level that has defaults: the settings themselves, and each
of their sections. A part of the score has none.
-/

namespace Assay

namespace Config

open Json (Members)
open Reader

/-- A field of a section is one of the settings as well. -/
def Field.within {σ : Type} (outer : Field σ) (inner : Field outer.Value) : Field σ where
  name := inner.name
  Value := inner.Value
  read := inner.read
  get settings := inner.get (outer.get settings)
  set value settings := outer.set (inner.set value (outer.get settings)) settings
  get_set value settings := by rw [outer.get_set, inner.get_set]

/-- Where members stand in a document: in the document itself, or in one of its sections. -/
inductive Place
  | top
  | inside (part : Section) (before after : Members)

namespace Place

def document : Place → Members → Json
  | top, members => .ofMembers members
  | inside part before after, members =>
    .ofMembers (before ++ (part.field.name, .ofMembers members) :: after)

/-- What can be said in a place. -/
def fields : Place → List (Field Config)
  | top => Config.overlay.fields
  | inside part _ _ => part.overlay.fields.map part.field.within

def names (place : Place) : List String := place.fields.map Field.name

theorem names_inside (part : Section) (before after : Members) :
    (inside part before after).names = part.overlay.names := by
  rw [names, fields, List.map_map]
  rfl

variable {part : Section} {before after members members' : Members} {config : Config}

/-- The settings follow a section, and nothing else of them does. -/
theorem config?_inside (hread : config? ((inside part before after).document members) = some config) :
    part.overlay.read? (.ofMembers members) = some (part.field.get config) ∧
      ∀ members', config? ((inside part before after).document members') =
        (part.overlay.read? (.ofMembers members')).map (part.field.set · config) := by
  change Config.overlay.read? _ = _ at hread
  have hsaid := Overlay.says_of_read? hread part.field_mem
  rw [← part.read_field]
  exact ⟨hsaid.read_of_append.2.2, fun members' => Overlay.read?_replaced hread part.field_mem _⟩

theorem config?_rearranged {place : Place} (hread : config? (place.document members) = some config)
    (h : Rearranged place.names members members') :
    config? (place.document members') = some config := by
  cases place with
  | top => exact Config.overlay.read?_rearranged hread h
  | inside part before after =>
      obtain ⟨hinner, houter⟩ := config?_inside hread
      rw [names_inside] at h
      rw [← hread, houter, houter, hinner, Overlay.read?_rearranged hinner h]

theorem config?_erased {place : Place} {field : Field Config} (hfield : field ∈ place.fields) {value : Json}
    (hread : config? (place.document (before ++ (field.name, value) :: after)) = some config) :
    config? (place.document (before ++ after)) = some (field.reset {} config) := by
  cases place with
  | top => exact Config.overlay.read?_erased hread hfield
  | inside part _ _ =>
      obtain ⟨inner, hmem, rfl⟩ := List.mem_map.mp hfield
      obtain ⟨hinner, houter⟩ := config?_inside hread
      rw [houter, Overlay.read?_erased hinner hmem, ← part.get_field]
      rfl

theorem config?_repeated {place : Place} {field : Field Config} (hfield : field ∈ place.fields)
    (hread : config? (place.document (before ++ after)) = some config)
    (h : field.name ∈ (before ++ after).map Prod.fst) (value : Json) :
    config? (place.document (before ++ (field.name, value) :: after)) = none := by
  cases place with
  | top => exact Config.overlay.read?_repeated hfield h value
  | inside part _ _ =>
      obtain ⟨inner, hmem, rfl⟩ := List.mem_map.mp hfield
      obtain ⟨-, houter⟩ := config?_inside hread
      have hnone := Overlay.read?_repeated hmem h value
      rw [houter]
      exact congrArg (Option.map (part.field.set · config)) hnone

end Place

/-! ### The parts of the score -/

/-- The score says what it says as an object, or as an array of its fields in their order. -/
inductive ScoreForm
  | object (before after : Members)
  | array (analyzer referencesDirectory : Json) (rest : List Json)

def ScoreForm.document : ScoreForm → Json → Json
  | object before after, parts => .ofMembers (before ++ ("parts", parts) :: after)
  | array analyzer referencesDirectory rest, parts =>
    .array (analyzer :: referencesDirectory :: parts :: rest)

theorem list?_eq_none {α : Type} {read : Json → Option α} {item : Json} (h : read item = none)
    (earlier later : List Json) : list? read (.array (earlier ++ item :: later)) = none := by
  change (earlier ++ item :: later).mapM read = none
  induction earlier with
  | nil => simp [List.mapM_cons, h]
  | cons first rest ih =>
      rw [List.cons_append, List.mapM_cons, ih]
      rcases read first with _ | value <;> rfl

theorem score?_eq_none {parts : Json} (h : list? part? parts = none) (form : ScoreForm) :
    score? (form.document parts) = none := by
  cases form with
  | object before after =>
      have hfield : scoreFields[2] ∈ Score.overlay.fields := List.getElem_mem _
      exact Overlay.read?_unread hfield h
  | array analyzer referencesDirectory rest =>
      have hparts : Reader.field (list? part?) [] (some parts) = none := h
      rcases rest with _ | ⟨extraArguments, _ | ⟨limitSeconds, _ | ⟨more, rest⟩⟩⟩
      all_goals simp [ScoreForm.document, score?, fields?, hparts]

/-- Where a part of the score stands in a document. -/
structure PartPlace where
  before : Members
  after : Members
  form : ScoreForm
  earlier : List Json
  later : List Json

namespace PartPlace

def document (place : PartPlace) (members : Members) : Json :=
  .ofMembers (place.before ++
    ("score", place.form.document (.array (place.earlier ++ .ofMembers members :: place.later))) :: place.after)

theorem config?_eq_none {members : Members} (h : part? (.ofMembers members) = none) (place : PartPlace) :
    config? (place.document members) = none :=
  Overlay.read?_unread Section.score.field_mem (score?_eq_none (list?_eq_none h _ _) place.form)

/-- A part says both things that there are to say of it, and once. -/
theorem given_of_part? {members : Members} {part : AnalyzerPart} (h : part? (.ofMembers members) = some part)
    {name : String} (hname : name = "marker" ∨ name = "file") : ∃ value, members.given name = [value] := by
  unfold part? at h
  rw [fields?_ofMembers] at h
  simp only [List.mapM_cons, List.mapM_nil, member?_entries] at h
  rcases hmarker : members.given "marker" with _ | ⟨marker, _ | ⟨other, rest⟩⟩
  all_goals rcases hfile : members.given "file" with _ | ⟨file, _ | ⟨other', rest'⟩⟩
  all_goals simp [hmarker, hfile] at h
  rcases hname with rfl | rfl
  · exact ⟨marker, hmarker⟩
  · exact ⟨file, hfile⟩

theorem config?_erased {place : PartPlace} {before after : Members} {name : String}
    (hname : name = "marker" ∨ name = "file") {value : Json} {config : Config}
    (hread : config? (place.document (before ++ (name, value) :: after)) = some config) :
    config? (place.document (before ++ after)) = none := by
  have hread' : part? (.ofMembers (before ++ (name, value) :: after)) ≠ none := fun hnone => by
    rw [config?_eq_none hnone] at hread
    cases hread
  obtain ⟨part, hpart⟩ := Option.ne_none_iff_exists'.mp hread'
  obtain ⟨document, hgiven⟩ := given_of_part? hpart hname
  refine config?_eq_none (Option.eq_none_iff_forall_ne_some.mpr fun other hother => ?_) place
  obtain ⟨document', hgiven'⟩ := given_of_part? hother hname
  have hone := congrArg List.length hgiven
  have hone' := congrArg List.length hgiven'
  rw [Members.given_append, Members.given_cons_self] at hone
  rw [Members.given_append] at hone'
  simp only [List.length_append, List.length_cons, List.length_nil] at hone hone'
  omega

end PartPlace

/-! ### Loading -/

/-- The file at this path holds this document, however it is written. -/
def Holds (files : Files) (path : Path) (document : Json) : Prop :=
  ∃ source, files.readText files.directory path = .ok source ∧ Json.ofText? source = some document

/-- What a document comes to, and so does every file that holds it. -/
structure Loads (document : Json) (result : Except Failure Config) : Prop where
  read : (config? document).elim (.error .configFormat) .ok = result
  load : ∀ files path, Holds files path document → Config.load files path = result

theorem load_of_holds {files : Files} {path : Path} {document : Json} (h : Holds files path document) :
    Config.load files path = (config? document).elim (.error .configFormat) .ok := by
  obtain ⟨source, hsource, hdocument⟩ := h
  rw [Config.load, hsource]
  change ofText source = _
  rw [ofText, hdocument, Option.bind_eq_bind, Option.bind_some]
  rcases config? document with _ | config <;> rfl

theorem loads_of_config? {document : Json} {read : Option Config} (h : config? document = read) :
    Loads document (read.elim (.error .configFormat) .ok) := by
  subst h
  exact ⟨rfl, fun _ _ => load_of_holds⟩

theorem config?_of_load {files : Files} {path : Path} {document : Json} {config : Config}
    (hholds : Holds files path document) (hload : Config.load files path = .ok config) :
    config? document = some config := by
  rw [load_of_holds hholds] at hload
  cases hread : config? document with
  | none =>
      rw [hread] at hload
      cases hload
  | some other =>
      rw [hread] at hload
      exact congrArg some (Except.ok.inj hload)

/-- In one place the members are rearranged. -/
inductive Redrafted : Json → Json → Prop
  | here (place : Place) {members members' : Members} (h : Rearranged place.names members members') :
      Redrafted (place.document members) (place.document members')

theorem config?_redrafted {document document' : Json} {config : Config}
    (hread : config? document = some config) (h : Relation.ReflTransGen Redrafted document document') :
    config? document' = some config := by
  induction h with
  | refl => exact hread
  | tail _ hstep ih =>
      obtain ⟨place, hmembers⟩ := hstep
      exact place.config?_rearranged ih hmembers

/-- How settings depend on the document that they are read from. -/
structure LaidOver (document : Json) (config : Config) : Prop where
  /-- Names are texts where names are known, so it is enough to speak of members. -/
  named : ∀ entries, document = .object entries → ∃ members : Members, document = .ofMembers members
  named_inside : ∀ (part : Section) before after entries,
    document = .ofMembers (before ++ (part.field.name, .object entries) :: after) →
      ∃ members, document = (Place.inside part before after).document members
  /-- Nothing but what is said of known fields counts, wherever it stands. -/
  redrafted : ∀ document', Relation.ReflTransGen Redrafted document document' → Loads document' (.ok config)
  /-- What is left out has its default, and takes nothing else with it. -/
  erased : ∀ (place : Place) before value after, ∀ field ∈ place.fields,
    document = place.document (before ++ (field.name, value) :: after) →
      Loads (place.document (before ++ after)) (.ok (field.reset {} config))
  /-- Nothing is said twice. -/
  repeated : ∀ (place : Place) before value after, ∀ field ∈ place.fields,
    document = place.document (before ++ after) → field.name ∈ (before ++ after).map Prod.fst →
      Loads (place.document (before ++ (field.name, value) :: after)) (.error .configFormat)
  /-- The parts of the score have no defaults. -/
  erased_part : ∀ (place : PartPlace) before value after, ∀ name ∈ ["marker", "file"],
    document = place.document (before ++ (name, value) :: after) →
      Loads (place.document (before ++ after)) (.error .configFormat)

/-- What a settings file says is laid over the defaults. -/
theorem laidOver_of_load {files : Files} {path : Path} {document : Json} {config : Config}
    (hholds : Holds files path document) (hload : Config.load files path = .ok config) :
    LaidOver document config := by
  have hread := config?_of_load hholds hload
  constructor
  case named =>
    rintro entries rfl
    obtain ⟨members, rfl⟩ := Config.overlay.named hread
    exact ⟨members, rfl⟩
  case named_inside =>
    rintro part before after entries rfl
    have hsaid := Config.overlay.says_of_read? hread part.field_mem
    have hinner := hsaid.read_of_append.2.2
    rw [part.read_field] at hinner
    obtain ⟨members, rfl⟩ := part.overlay.named hinner
    exact ⟨members, rfl⟩
  case redrafted =>
    exact fun document' hredrafted => loads_of_config? (config?_redrafted hread hredrafted)
  case erased =>
    rintro place before value after field hfield rfl
    exact loads_of_config? (place.config?_erased hfield hread)
  case repeated =>
    rintro place before value after field hfield rfl hmem
    exact loads_of_config? (place.config?_repeated hfield hread hmem value)
  case erased_part =>
    rintro place before value after name hname rfl
    have hname' : name = "marker" ∨ name = "file" := by simpa using hname
    exact loads_of_config? (place.config?_erased hname' hread)

def markedText : String :=
  "\x7b\"jobs\":3,\"score\":\x7b\"timeout_secs\":5,\"parts\":[\x7b\"marker\":\"a1\",\"file\":\"a.c\"\x7d]\x7d\x7d"

def markedFiles : Files :=
  { Files.bare [] with
    nodes := (Files.bare []).nodes.put ["settings"] (.file ⟨0⟩ (.ofText markedText) false)
    nextFile := 1 }

def markedPart : Members := [("marker", .string (some "a1")), ("file", .string (some "a.c"))]

def markedScore : Members := [("timeout_secs", .natural 5), ("parts", .array [.ofMembers markedPart])]

def markedConfig : Config :=
  { jobs := some 3
    score := { parts := [⟨"a1", "a.c"⟩], limitSeconds := some 5 } }

open Json.Reader (value_object value_array value_string items_last members_last members_more) in
theorem value_markedText (fuel : Nat) :
    Json.Reader.value (fuel + 12) markedText.toList =
      some (.ofMembers [("jobs", .natural 3), ("score", .ofMembers markedScore)], []) := by
  have hmarked : markedText.toList =
      ['\x7b', '"', 'j', 'o', 'b', 's', '"', ':', '3', ',', '"', 's', 'c', 'o', 'r', 'e', '"', ':', '\x7b',
        '"', 't', 'i', 'm', 'e', 'o', 'u', 't', '_', 's', 'e', 'c', 's', '"', ':', '5', ',',
        '"', 'p', 'a', 'r', 't', 's', '"', ':', '[', '\x7b',
        '"', 'm', 'a', 'r', 'k', 'e', 'r', '"', ':', '"', 'a', '1', '"', ',',
        '"', 'f', 'i', 'l', 'e', '"', ':', '"', 'a', '.', 'c', '"', '\x7d', ']', '\x7d', '\x7d'] := rfl
  rw [hmarked]
  refine value_object (members_more rfl rfl (members_last rfl ?_))
  refine value_object (members_more rfl rfl (members_last rfl ?_))
  refine value_array (items_last (value_object ?_))
  exact members_more rfl (value_string rfl) (members_last rfl (value_string rfl))

theorem holds_markedFiles :
    Holds markedFiles ⟨"/settings"⟩ (.ofMembers [("jobs", .natural 3), ("score", .ofMembers markedScore)]) := by
  refine ⟨markedText, ?_, @Json.ofText?_of_value _ _ 12 (by decide) value_markedText⟩
  have hread : (markedFiles.readText markedFiles.directory ⟨"/settings"⟩).toOption = some markedText := by
    decide
  cases hfile : markedFiles.readText markedFiles.directory ⟨"/settings"⟩ with
  | error fault =>
      rw [hfile] at hread
      cases hread
  | ok text =>
      rw [hfile] at hread
      exact congrArg Except.ok (Option.some.inj hread)

/-- Of settings with a part that is scored, the limit is left out, what is not known is said between the others, the
jobs are given again, and the part loses its file. -/
theorem laidOver_of_load_marked :
    Config.load markedFiles ⟨"/settings"⟩ = .ok markedConfig ∧
      Loads (.ofMembers [("jobs", .natural 3), ("score", .ofMembers [("parts", .array [.ofMembers markedPart])])])
        (.ok { markedConfig with score := { parts := [⟨"a1", "a.c"⟩] } }) ∧
      Loads (.ofMembers [("score", .ofMembers markedScore), ("note", .array [.null]), ("jobs", .natural 3)])
        (.ok markedConfig) ∧
      Loads (.ofMembers [("jobs", .natural 3), ("score", .ofMembers markedScore), ("jobs", .natural 4)])
        (.error .configFormat) ∧
      Loads (.ofMembers [("jobs", .natural 3), ("score", .ofMembers [("timeout_secs", .natural 5),
          ("parts", .array [.ofMembers [("marker", .string (some "a1"))]])])])
        (.error .configFormat) := by
  have hload : Config.load markedFiles ⟨"/settings"⟩ = .ok markedConfig := load_of_holds holds_markedFiles
  have hlaid := laidOver_of_load holds_markedFiles hload
  have hjobs : configFields[3] ∈ Place.top.fields := List.getElem_mem _
  refine ⟨hload, ?_, ?_, ?_, ?_⟩
  · have hlimit : scoreField.within scoreFields[4] ∈ (Place.inside .score [("jobs", .natural 3)] []).fields :=
      List.mem_map_of_mem (List.getElem_mem _)
    exact hlaid.erased (.inside .score [("jobs", .natural 3)] []) [] (.natural 5) [markedScore[1]] _ hlimit rfl
  · have hswapped : Rearranged Place.top.names [("jobs", .natural 3), ("score", .ofMembers markedScore)]
        [("score", .ofMembers markedScore), ("jobs", .natural 3)] := .reordered (.swap _ _ _)
    have hadded := Rearranged.added [("score", .ofMembers markedScore)] [("jobs", .natural 3)] (.array [.null])
      (show "note" ∉ Place.top.names by decide)
    exact hlaid.redrafted _ (.tail (.single (.here .top hswapped)) (.here .top hadded))
  · exact hlaid.repeated .top [("jobs", .natural 3), ("score", .ofMembers markedScore)] (.natural 4) [] _ hjobs rfl
      (by decide)
  · let place : PartPlace := ⟨[("jobs", .natural 3)], [], .object [("timeout_secs", .natural 5)] [], [], []⟩
    exact hlaid.erased_part place [markedPart[0]] (.string (some "a.c")) [] "file" (by decide) rfl

end Config

end Assay
