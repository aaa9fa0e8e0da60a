import Assay.Proofs.Text.Order
import Assay.Text.Raw
import Mathlib.Data.List.Induction

/-!
# Texts as raw texts

The encoding of a text is shown as the text itself, and two texts have different encodings. Of what is shown, only
U+FFFD can stand for anything else. A byte below 0x80 always stands for itself, so a raw text may be shown in parts
wherever such a byte is.
-/

namespace Assay.RawText

variable {text left right : RawText}

@[ext]
theorem ext_bytes (h : left.bytes = right.bytes) : left = right := by
  cases left
  cases right
  exact congrArg mk h

@[simp]
theorem bytes_append (left right : RawText) : (left ++ right).bytes = left.bytes ++ right.bytes := rfl

theorem append_assoc (first second third : RawText) : first ++ second ++ third = first ++ (second ++ third) :=
  ext_bytes (List.append_assoc ..)

@[simp]
theorem bytes_empty : (ofText "").bytes = [] := rfl

@[simp]
theorem empty_append (text : RawText) : ofText "" ++ text = text := rfl

@[simp]
theorem append_empty (text : RawText) : text ++ ofText "" = text := ext_bytes (List.append_nil _)

theorem bytes_eq_nil_iff : text.bytes = [] ↔ text = "" := by
  constructor
  · exact fun h => ext_bytes h
  · rintro rfl
    rfl

@[simp]
theorem isEmpty_iff : text.isEmpty = true ↔ text = "" := by
  rw [isEmpty, List.isEmpty_iff, bytes_eq_nil_iff]

@[simp]
theorem isEmpty_eq_false_iff : text.isEmpty = false ↔ text ≠ "" := by
  rw [← Bool.not_eq_true, isEmpty_iff]

@[simp]
theorem append_eq_empty_iff : left ++ right = ofText "" ↔ left = "" ∧ right = "" := by
  rw [← bytes_eq_nil_iff, bytes_append, List.append_eq_nil_iff, bytes_eq_nil_iff, bytes_eq_nil_iff]

@[simp]
theorem size_append (left right : RawText) : (left ++ right).size = left.size + right.size :=
  List.length_append

@[simp]
theorem intercalate_nil (separator : RawText) : intercalate separator [] = "" := rfl

@[simp]
theorem intercalate_singleton (separator text : RawText) : intercalate separator [text] = text :=
  ext_bytes (by simp [intercalate])

theorem intercalate_cons_cons (separator first second : RawText) (rest : List RawText) :
    intercalate separator (first :: second :: rest) = first ++ separator ++ intercalate separator (second :: rest) :=
  ext_bytes List.intercalate_cons_cons

theorem intercalate_concat (separator : RawText) {texts : List RawText} (h : texts ≠ []) (last : RawText) :
    intercalate separator (texts ++ [last]) = intercalate separator texts ++ separator ++ last := by
  induction texts with
  | nil => exact absurd rfl h
  | cons first rest ih =>
      cases rest with
      | nil => simp [intercalate_cons_cons]
      | cons second rest =>
          rw [List.cons_append, List.cons_append, intercalate_cons_cons, intercalate_cons_cons, ← List.cons_append,
            ih (List.cons_ne_nil _ _)]
          simp only [append_assoc]

/-! ### The encoding of a text -/

theorem bytes_ofText (text : String) : (ofText text).bytes = text.toList.flatMap String.utf8EncodeChar :=
  Text.bytes_eq_flatMap text

theorem ofText_append (left right : String) : ofText (left ++ right) = ofText left ++ ofText right := by
  apply ext_bytes
  rw [bytes_append, bytes_ofText, bytes_ofText, bytes_ofText, String.toList_append, List.flatMap_append]

/-- A character below 0x80 is encoded as one byte, any other by a byte that tells how many follow, and continuations. -/
theorem encode_cases (char : Char) :
    (char.toNat < 128 ∧ String.utf8EncodeChar char = [UInt8.ofNat char.toNat]) ∨
      128 ≤ char.toNat ∧ ∃ first rest, String.utf8EncodeChar char = first :: rest ∧ 0xC0 ≤ first ∧
        ∀ byte ∈ rest, isContinuation byte = true := by
  have hmax : char.val.toNat < 1114112 := by
    rcases char.valid with hlow | ⟨-, hhigh⟩
    · exact Nat.lt_trans hlow (by decide)
    · exact hhigh
  have hfirst {value : Nat} (h : value < 256) (hmany : 192 ≤ value) : 0xC0 ≤ UInt8.ofNat value := by
    rw [UInt8.le_iff_toNat_le, UInt8.toNat_ofNat', Nat.mod_eq_of_lt h]
    exact hmany
  have hnext (value : Nat) : isContinuation (UInt8.ofNat (value % 64 + 128)) = true := by
    have hbound : value % 64 + 128 < 256 := by omega
    simp only [isContinuation, Bool.and_eq_true, decide_eq_true_iff, UInt8.le_iff_toNat_le,
      UInt8.lt_iff_toNat_lt, UInt8.toNat_ofNat', Nat.mod_eq_of_lt hbound]
    exact ⟨Nat.le_add_left .., by change _ < 192; omega⟩
  have hvalue : char.toNat = char.val.toNat := rfl
  rw [hvalue, String.utf8EncodeChar]
  generalize char.val.toNat = value at hmax
  split
  · exact .inl ⟨by omega, rfl⟩
  refine .inr ⟨by omega, ?_⟩
  split
  · exact ⟨_, _, rfl, hfirst (by omega) (by omega), by
      simp only [List.mem_cons, List.not_mem_nil, or_false, forall_eq, hnext]⟩
  split
  · exact ⟨_, _, rfl, hfirst (by omega) (by omega), by
      simp only [List.mem_cons, List.not_mem_nil, or_false, forall_eq_or_imp, forall_eq, hnext, and_self]⟩
  · exact ⟨_, _, rfl, hfirst (by omega) (by omega), by
      simp only [List.mem_cons, List.not_mem_nil, or_false, forall_eq_or_imp, forall_eq, hnext, and_self]⟩

/-- What the encoding of a character begins with, and what it goes on with. -/
theorem encode_eq_cons (char : Char) : ∃ first rest, String.utf8EncodeChar char = first :: rest ∧
    isContinuation first = false ∧ ∀ byte ∈ rest, isContinuation byte = true := by
  rcases encode_cases char with ⟨hsmall, hencode⟩ | ⟨hlarge, first, rest, hencode, hfirst, hrest⟩
  · refine ⟨_, [], hencode, ?_, nofun⟩
    have hle : ¬ (128 : UInt8) ≤ UInt8.ofNat char.toNat := by
      rw [UInt8.le_iff_toNat_le, UInt8.toNat_ofNat', Nat.mod_eq_of_lt (by omega)]
      exact Nat.not_le.mpr hsmall
    rw [isContinuation, decide_eq_false hle, Bool.false_and]
  · refine ⟨first, rest, hencode, ?_, hrest⟩
    rw [isContinuation, decide_eq_false (UInt8.not_lt.mpr hfirst), Bool.and_false]

/-- A byte below 0x80 is there only where its character is. -/
theorem mem_encode_iff {char : Char} {byte : UInt8} (hbyte : byte < 0x80) :
    byte ∈ String.utf8EncodeChar char ↔ char.toNat = byte.toNat := by
  have hlow : byte.toNat < 128 := UInt8.lt_iff_toNat_lt.mp hbyte
  rcases encode_cases char with ⟨hsmall, hencode⟩ | ⟨hlarge, first, rest, hencode, hfirst, hrest⟩
  · rw [hencode, List.mem_singleton, ← UInt8.toNat_inj, UInt8.toNat_ofNat', Nat.mod_eq_of_lt (by omega), eq_comm]
  · have hnot : byte ∉ first :: rest := by
      intro hmem
      rcases List.mem_cons.mp hmem with rfl | hlater
      · have hge := UInt8.le_iff_toNat_le.mp hfirst
        change 192 ≤ _ at hge
        omega
      · have hge := UInt8.le_iff_toNat_le.mp (of_decide_eq_true (Bool.and_eq_true_iff.mp (hrest byte hlater)).1)
        change 128 ≤ _ at hge
        omega
    rw [hencode]
    exact iff_of_false hnot (by omega)

theorem mem_bytes_ofText {char : Char} {byte : UInt8} (hchar : char.toNat = byte.toNat) (hbyte : byte < 0x80)
    (text : String) : byte ∈ (ofText text).bytes ↔ char ∈ text.toList := by
  rw [bytes_ofText, List.mem_flatMap]
  simp only [mem_encode_iff hbyte, ← hchar]
  constructor
  · rintro ⟨other, hmem, heq⟩
    exact Char.toNat_inj.mp heq ▸ hmem
  · exact fun hmem => ⟨char, hmem, rfl⟩

/-! ### What is shown -/

/-- The first piece begins where the bytes begin. -/
theorem exists_pieces_eq (byte : UInt8) (rest : List UInt8) :
    ∃ more others, pieces (byte :: rest) = (byte :: more) :: others := by
  rw [pieces]
  split
  · exact ⟨[], [], rfl⟩
  · next piece others _ =>
    split
    · exact ⟨piece, others, rfl⟩
    · exact ⟨[], piece :: others, rfl⟩

theorem pieces_cons {next : UInt8} {rest more : List UInt8} {others : List (List UInt8)}
    (h : pieces (next :: rest) = (next :: more) :: others) (byte : UInt8) :
    pieces (byte :: next :: rest) =
      if isContinuation next then (byte :: next :: more) :: others else [byte] :: (next :: more) :: others := by
  rw [pieces, h]
  rfl

/-- Bytes are cut in front of what is no continuation, whatever there is before it. -/
theorem pieces_append {first : UInt8} (h : isContinuation first = false) (before rest : List UInt8) :
    pieces (before ++ first :: rest) = pieces before ++ pieces (first :: rest) := by
  obtain ⟨more, others, hpieces⟩ := exists_pieces_eq first rest
  induction before with
  | nil => rfl
  | cons byte before ih =>
      cases before with
      | nil =>
          rw [List.singleton_append, pieces_cons hpieces, if_neg (by simp [h]), hpieces]
          rfl
      | cons next before =>
          obtain ⟨next', others', hbefore⟩ := exists_pieces_eq next before
          rw [hbefore, List.cons_append, List.cons_append] at ih
          rw [List.cons_append, List.cons_append, pieces_cons ih, pieces_cons hbefore]
          split <;> rfl

theorem pieces_continuations (first : UInt8) {rest : List UInt8}
    (h : ∀ byte ∈ rest, isContinuation byte = true) : pieces (first :: rest) = [first :: rest] := by
  induction rest generalizing first with
  | nil => rfl
  | cons byte rest ih =>
      have hlater := ih byte fun other hother => h other (List.mem_cons_of_mem _ hother)
      rw [pieces_cons hlater, if_pos (h byte (List.mem_cons_self ..))]

theorem showPiece_encode (char : Char) (rest : List UInt8) :
    showPiece (String.utf8EncodeChar char ++ rest) = char :: List.replicate rest.length replacement := by
  have hdecode : ByteArray.utf8DecodeChar? ⟨(String.utf8EncodeChar char ++ rest).toArray⟩ 0 = some char := by
    have happend := @ByteArray.utf8DecodeChar?_utf8EncodeChar_append rest.toByteArray char
    rw [← List.toByteArray_append] at happend
    rw [← happend]
    congr 1
    exact ByteArray.ext List.data_toByteArray.symm
  unfold showPiece
  rw [hdecode]
  simp

/-- The parts of a raw text are shown one after the other, if what the second one begins with is no continuation. -/
theorem lossy_append (h : ∀ byte ∈ right.bytes.head?, isContinuation byte = false) (left : RawText) :
    (left ++ right).lossy = left.lossy ++ right.lossy := by
  have hpieces : pieces (left.bytes ++ right.bytes) = pieces left.bytes ++ pieces right.bytes := by
    rcases hright : right.bytes with _ | ⟨first, rest⟩
    · simp [pieces]
    · exact pieces_append (h first (by rw [hright]; rfl)) left.bytes rest
  rw [lossy, bytes_append, hpieces, List.flatMap_append, String.ofList_append]
  rfl

theorem head_ofText (text : String) : ∀ byte ∈ (ofText text).bytes.head?, isContinuation byte = false := by
  rw [bytes_ofText]
  rcases text.toList with _ | ⟨char, chars⟩
  · exact nofun
  obtain ⟨first, rest, hencode, hfirst, -⟩ := encode_eq_cons char
  rw [List.flatMap_cons, hencode]
  rintro byte ⟨⟩
  exact hfirst

theorem lossy_encode (char : Char) : lossy ⟨String.utf8EncodeChar char⟩ = String.ofList [char] := by
  obtain ⟨first, rest, hencode, -, hrest⟩ := encode_eq_cons char
  have hone := showPiece_encode char []
  rw [List.append_nil] at hone
  rw [lossy, hencode, pieces_continuations first hrest, ← hencode, List.flatMap_singleton, hone]
  rfl

/-- A text is shown as itself. -/
@[simp]
theorem lossy_ofText (text : String) : (ofText text).lossy = text := by
  obtain ⟨chars, rfl⟩ : ∃ chars, text = String.ofList chars := ⟨text.toList, String.ofList_toList.symm⟩
  induction chars with
  | nil => rfl
  | cons char chars ih =>
      have hcons : String.ofList (char :: chars) = String.ofList [char] ++ String.ofList chars :=
        @String.ofList_append [char] chars
      have hone : ofText (String.ofList [char]) = ⟨String.utf8EncodeChar char⟩ := by
        apply ext_bytes
        rw [bytes_ofText, String.toList_ofList, List.flatMap_singleton]
      rw [hcons, ofText_append, lossy_append (head_ofText _), ih, hone, lossy_encode]

theorem ofText_injective {text other : String} (h : ofText text = ofText other) : text = other := by
  rw [← lossy_ofText text, h, lossy_ofText]

@[simp]
theorem ofText_inj {text other : String} : ofText text = ofText other ↔ text = other :=
  ⟨ofText_injective, congrArg ofText⟩

/-- The text that has this encoding is the one that is shown, if there is one. -/
def IsText (text : RawText) : Prop := ofText text.lossy = text
deriving Decidable

/-- The name of a picture that is no text. -/
def odd : RawText := ⟨[0xFF, 0x2E, 0x70, 0x6E, 0x67]⟩

theorem isText_ofText (text : String) : (ofText text).IsText := congrArg ofText (lossy_ofText text)

theorem IsText.eq_of_lossy_eq (hleft : left.IsText) (hright : right.IsText) (h : left.lossy = right.lossy) :
    left = right := by
  rw [← hleft, h, hright]

theorem isText_iff : text.IsText ↔ ∃ shown : String, text = shown := by
  constructor
  · exact fun h => ⟨text.lossy, h.symm⟩
  · rintro ⟨shown, rfl⟩
    exact isText_ofText shown

theorem IsText.append (hleft : left.IsText) (hright : right.IsText) : (left ++ right).IsText := by
  obtain ⟨first, rfl⟩ := isText_iff.mp hleft
  obtain ⟨second, rfl⟩ := isText_iff.mp hright
  rw [← ofText_append]
  exact isText_ofText _

/-! ### What is shown in place of something -/

theorem flatten_pieces (bytes : List UInt8) : (pieces bytes).flatten = bytes := by
  induction bytes with
  | nil => rfl
  | cons byte rest ih =>
      rw [pieces]
      split
      · next hnil =>
        rw [hnil] at ih
        rw [← ih]
        rfl
      · next piece others hpieces =>
        rw [hpieces, List.flatten_cons] at ih
        split
        · rw [List.flatten_cons, List.cons_append, ih]
        · rw [List.flatten_cons, List.flatten_cons, ih]
          rfl

/-- A piece is shown as a character and what takes the place of the rest, or only as the latter. -/
theorem showPiece_cases (piece : List UInt8) :
    (∃ char rest, piece = String.utf8EncodeChar char ++ rest ∧
      showPiece piece = char :: List.replicate rest.length replacement) ∨
    ∃ count, (count = 0 → piece = []) ∧ showPiece piece = List.replicate count replacement := by
  cases hdecode : ByteArray.utf8DecodeChar? ⟨piece.toArray⟩ 0 with
  | some char =>
      have hpiece := congrArg (fun bytes => bytes.data.toList) (ByteArray.eq_of_utf8DecodeChar?_eq_some hdecode)
      simp only [ByteArray.data_append, Array.toList_append, List.data_toByteArray] at hpiece
      obtain ⟨rest, hrest⟩ : ∃ rest, piece = String.utf8EncodeChar char ++ rest := ⟨_, hpiece⟩
      exact .inl ⟨char, rest, hrest, hrest ▸ showPiece_encode char rest⟩
  | none =>
      right
      unfold showPiece
      rw [hdecode]
      rcases piece with _ | ⟨first, _ | ⟨second, rest⟩⟩
      · exact ⟨0, fun _ => rfl, rfl⟩
      · exact ⟨1, nofun, rfl⟩
      · dsimp only
        split
        · exact ⟨1, nofun, rfl⟩
        · exact ⟨rest.length + 2, nofun, rfl⟩

/-- What is shown to end in characters of its own ends in their encodings. -/
theorem exists_flatten_eq {shown : List (List UInt8)} {before after : List Char} (hplain : replacement ∉ after)
    (h : shown.flatMap showPiece = before ++ after) :
    ∃ start, shown.flatten = start ++ after.flatMap String.utf8EncodeChar := by
  induction shown using List.reverseRecOn generalizing after with
  | nil =>
      obtain ⟨-, rfl⟩ := List.append_eq_nil_iff.mp h.symm
      exact ⟨[], rfl⟩
  | append_singleton shown piece ih =>
      rcases after.eq_nil_or_concat with rfl | ⟨after, last, rfl⟩
      · exact ⟨_, (List.append_nil _).symm⟩
      rw [List.concat_eq_append] at h hplain ⊢
      obtain ⟨hafter, hlast⟩ : replacement ∉ after ∧ replacement ≠ last := by simpa using hplain
      rw [List.flatMap_append, List.flatMap_singleton, ← List.append_assoc] at h
      rw [List.flatten_concat, List.flatMap_append, List.flatMap_singleton]
      have hrepeated (count : Nat) {start : List Char}
          (heq : start ++ List.replicate (count + 1) replacement = before ++ after ++ [last]) : False := by
        rw [List.replicate_succ', ← List.append_assoc] at heq
        exact hlast (List.singleton_inj.mp (List.append_inj_right' heq rfl))
      rcases showPiece_cases piece with ⟨char, rest, rfl, hshow⟩ | ⟨_ | count, hpiece, hshow⟩
      · cases rest with
        | nil =>
            rw [hshow] at h
            obtain ⟨hbefore, hchar⟩ := List.append_inj' h rfl
            obtain ⟨start, hstart⟩ := ih hafter hbefore
            obtain rfl := List.singleton_inj.mp hchar
            exact ⟨start, by rw [hstart, List.append_nil, List.append_assoc]⟩
        | cons byte rest =>
            rw [hshow, List.length_cons, ← List.singleton_append, ← List.append_assoc] at h
            exact (hrepeated _ h).elim
      · rw [hshow, List.replicate_zero, List.append_nil, List.append_assoc] at h
        obtain ⟨start, hstart⟩ := ih hplain h
        rw [hpiece rfl, List.append_nil, hstart, List.flatMap_append, List.flatMap_singleton]
        exact ⟨start, rfl⟩
      · rw [hshow] at h
        exact (hrepeated count h).elim

/-- A raw text is shown to end in a text without U+FFFD only if it does. -/
theorem exists_append_of_lossy {text : RawText} {stem suffix : String} (hplain : replacement ∉ suffix.toList)
    (h : text.lossy = stem ++ suffix) : ∃ start : RawText, text = start ++ suffix := by
  have hshown : (pieces text.bytes).flatMap showPiece = stem.toList ++ suffix.toList := by
    rw [← String.toList_append, ← h, lossy, String.toList_ofList]
  obtain ⟨start, hstart⟩ := exists_flatten_eq hplain hshown
  rw [flatten_pieces, ← bytes_ofText] at hstart
  exact ⟨⟨start⟩, ext_bytes hstart⟩

/-! ### Bytes that stand for themselves -/

theorem encode_ascii {char : Char} (h : char.toNat < 128) :
    String.utf8EncodeChar char = [UInt8.ofNat char.toNat] := by
  rcases encode_cases char with ⟨-, hencode⟩ | ⟨hlarge, -⟩
  · exact hencode
  · omega

theorem not_isUTF8FirstByte : ∀ value : Fin 256, isContinuation (UInt8.ofFin value) = true →
    ¬ (UInt8.ofFin value).IsUTF8FirstByte := by
  decide +kernel

/-- What cannot begin a character is shown without one. -/
theorem showPiece_continuation {first : UInt8} (h : isContinuation first = true) (rest : List UInt8) :
    showPiece (first :: rest) = List.replicate (rest.length + 1) replacement := by
  have hrange : 0x80 ≤ first ∧ first < 0xC0 := by simpa [isContinuation] using h
  have hdecode : ByteArray.utf8DecodeChar? ⟨(first :: rest).toArray⟩ 0 = none := by
    rw [← Option.not_isSome_iff_eq_none]
    exact fun hsome => not_isUTF8FirstByte first.toFin h (ByteArray.isUTF8FirstByte_of_isSome_utf8DecodeChar? hsome)
  unfold showPiece
  rw [hdecode]
  rcases rest with _ | ⟨second, rest⟩
  · rfl
  · have hnone : continuations first = none := by
      rw [continuations, if_pos]
      exact .inl (UInt8.lt_of_lt_of_le hrange.2 (by decide))
    simp [hnone]

/-- A byte below 0x80 is shown as its character, whatever there is behind it. -/
theorem lossy_cons_ascii {char : Char} (h : char.toNat < 128) (rest : List UInt8) :
    lossy ⟨UInt8.ofNat char.toNat :: rest⟩ = String.ofList [char] ++ lossy ⟨rest⟩ := by
  by_cases hhead : ∀ byte ∈ rest.head?, isContinuation byte = false
  · have hone := lossy_encode char
    rw [encode_ascii h] at hone
    rw [← hone, ← lossy_append hhead]
    rfl
  obtain ⟨next, rest, rfl, hnext⟩ : ∃ next more, rest = next :: more ∧ isContinuation next = true := by
    rcases rest with _ | ⟨next, more⟩
    · exact absurd nofun hhead
    · exact ⟨next, more, rfl, by simpa using hhead⟩
  obtain ⟨more, others, hpieces⟩ := exists_pieces_eq next rest
  have hshown := showPiece_encode char (next :: more)
  rw [encode_ascii h, List.singleton_append] at hshown
  rw [lossy, lossy, pieces_cons hpieces, if_pos hnext, hpieces, List.flatMap_cons, List.flatMap_cons, hshown,
    showPiece_continuation hnext, ← String.ofList_append]
  rfl

end Assay.RawText
