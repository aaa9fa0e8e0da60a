import Mathlib.Data.String.Basic

/-!
# The order of texts

Names are sorted by their characters. That is the order of their bytes, too: of two characters the earlier one has the
earlier bytes, and the bytes of neither go on where those of the other one end.
-/

namespace Assay.Text

theorem byte_cons_lt {left right : Nat} (hleft : left < 256) (hright : right < 256) {rest rest' : List UInt8}
    (h : left < right ∨ left = right ∧ rest < rest') :
    UInt8.ofNat left :: rest < UInt8.ofNat right :: rest' := by
  rw [List.cons_lt_cons_iff, UInt8.lt_iff_toNat_lt, UInt8.toNat_ofNat', UInt8.toNat_ofNat',
    Nat.mod_eq_of_lt hleft, Nat.mod_eq_of_lt hright]
  exact h.imp_right fun ⟨heq, hrest⟩ => ⟨congrArg UInt8.ofNat heq, hrest⟩

/-- What is written in digits compares digit by digit. -/
theorem div_lt_or {left right : Nat} (h : left < right) (base : Nat) :
    left / base < right / base ∨ left / base = right / base ∧ left % base < right % base := by
  rcases Nat.lt_or_eq_of_le (Nat.div_le_div_right (Nat.le_of_lt h)) with hlt | heq
  · exact .inl hlt
  · refine .inr ⟨heq, ?_⟩
    have hleft := Nat.div_add_mod left base
    have hright := Nat.div_add_mod right base
    rw [heq] at hleft
    omega

/-- The bytes of a character come before those of another one if the character does, whatever follows. -/
theorem encode_append_lt {left right : Char} (h : left < right) (rest rest' : List UInt8) :
    String.utf8EncodeChar left ++ rest < String.utf8EncodeChar right ++ rest' := by
  have hless : left.val.toNat < right.val.toNat := h
  have hmax : right.val.toNat < 1114112 := by
    rcases right.valid with hlow | ⟨-, hhigh⟩
    · exact Nat.lt_trans hlow (by decide)
    · exact hhigh
  unfold String.utf8EncodeChar
  dsimp only
  generalize left.val.toNat = first at *
  generalize right.val.toNat = second at *
  -- The first byte tells how many there are; of as many bytes, the first one that differs decides.
  have hunits := div_lt_or hless 64
  split
  · split
    · exact byte_cons_lt (by omega) (by omega) (.inl hless)
    split
    · exact byte_cons_lt (by omega) (by omega) (.inl (by omega))
    split <;> exact byte_cons_lt (by omega) (by omega) (.inl (by omega))
  split
  · rw [if_neg (by omega)]
    split
    · refine byte_cons_lt (by omega) (by omega) ?_
      rcases hunits with hlt | ⟨heq, hlt⟩
      · exact .inl (by omega)
      · exact .inr ⟨by omega, byte_cons_lt (by omega) (by omega) (.inl (by omega))⟩
    split <;> exact byte_cons_lt (by omega) (by omega) (.inl (by omega))
  split
  · rw [if_neg (by omega), if_neg (by omega)]
    split
    · refine byte_cons_lt (by omega) (by omega) ?_
      rcases hunits with hunits | ⟨heq, hlt⟩
      · rcases div_lt_or hunits 64 with hlt | ⟨heq, hlt⟩
        · exact .inl (by omega)
        · exact .inr ⟨by omega, byte_cons_lt (by omega) (by omega) (.inl (by omega))⟩
      · refine .inr ⟨by omega, byte_cons_lt (by omega) (by omega) (.inr ⟨by omega, ?_⟩)⟩
        exact byte_cons_lt (by omega) (by omega) (.inl (by omega))
    · exact byte_cons_lt (by omega) (by omega) (.inl (by omega))
  · rw [if_neg (by omega), if_neg (by omega), if_neg (by omega)]
    refine byte_cons_lt (by omega) (by omega) ?_
    rcases hunits with hunits | ⟨heq, hlt⟩
    · rcases div_lt_or hunits 64 with hsixty | ⟨heq, hlt⟩
      · rcases div_lt_or hsixty 64 with hlt | ⟨heq, hlt⟩
        · exact .inl (by omega)
        · exact .inr ⟨by omega, byte_cons_lt (by omega) (by omega) (.inl (by omega))⟩
      · refine .inr ⟨by omega, byte_cons_lt (by omega) (by omega) (.inr ⟨by omega, ?_⟩)⟩
        exact byte_cons_lt (by omega) (by omega) (.inl (by omega))
    · refine .inr ⟨by omega, byte_cons_lt (by omega) (by omega) (.inr ⟨by omega, ?_⟩)⟩
      refine byte_cons_lt (by omega) (by omega) (.inr ⟨by omega, ?_⟩)
      exact byte_cons_lt (by omega) (by omega) (.inl (by omega))

/-- The bytes of a text. -/
def bytes (text : String) : List UInt8 := text.toUTF8.data.toList

theorem bytes_eq_flatMap (text : String) : bytes text = text.toList.flatMap String.utf8EncodeChar := by
  obtain ⟨chars, rfl⟩ : ∃ chars, text = String.ofList chars := ⟨text.toList, String.ofList_toList.symm⟩
  simp [bytes, String.toUTF8, String.toByteArray_ofList, List.utf8Encode, List.data_toByteArray]

theorem flatMap_encode_lt {left right : List Char} (h : left < right) :
    left.flatMap String.utf8EncodeChar < right.flatMap String.utf8EncodeChar := by
  rw [← List.lex_lt] at h
  induction h with
  | @nil char rest =>
      have hne : String.utf8EncodeChar char ≠ [] := fun hnil =>
        absurd (congrArg List.length hnil) (by simp [String.length_utf8EncodeChar, Nat.ne_of_gt char.utf8Size_pos])
      obtain ⟨byte, bytes, hbytes⟩ := List.exists_cons_of_ne_nil hne
      rw [List.flatMap_nil, List.flatMap_cons, hbytes]
      exact List.nil_lt_cons _ _
  | cons h ih => exact List.append_left_lt ih
  | rel h => exact encode_append_lt h _ _

/-- Texts are in the order of their bytes. -/
theorem bytes_lt_of_lt {left right : String} (h : left < right) : bytes left < bytes right := by
  rw [bytes_eq_flatMap, bytes_eq_flatMap]
  exact flatMap_encode_lt (h)

/-- What goes by different names is in a strict order once it is sorted by name. -/
theorem pairwise_mergeSort {α : Type} (name : α → String) {list : List α} (h : (list.map name).Nodup) :
    ((list.mergeSort fun left right => name left ≤ name right).map name).Pairwise (· < ·) := by
  have htrans (first second third : α) (hfirst : decide (name first ≤ name second) = true)
      (hsecond : decide (name second ≤ name third) = true) : decide (name first ≤ name third) = true :=
    decide_eq_true (le_trans (of_decide_eq_true hfirst) (of_decide_eq_true hsecond))
  have htotal (left right : α) :
      (decide (name left ≤ name right) || decide (name right ≤ name left)) = true := by
    simpa using le_total (name left) (name right)
  have hsorted := List.pairwise_mergeSort htrans htotal list
  have hperm := List.mergeSort_perm list fun left right => decide (name left ≤ name right)
  have hdistinct := (hperm.map name).nodup_iff.mpr h
  rw [List.pairwise_map]
  apply List.Pairwise.imp₂ _ hsorted (List.pairwise_map.mp hdistinct)
  intro left right hle hne
  exact lt_of_le_of_ne (of_decide_eq_true hle) hne

end Assay.Text
