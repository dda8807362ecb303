import FrameEscape.Names
import Mathlib.Data.String.Basic

/-!
# Names in the order of their bytes

Names are compared character by character. A list in that order is in the order of its UTF-8 bytes
too: where two characters differ, the lower one has the lower bytes, whatever follows them
(`utf8EncodeChar_append_lt`).
-/

namespace FrameEscape

/-! ## Bytes of numbers -/

theorem byte_lt_iff {a b : Nat} (ha : a < 256) (hb : b < 256) :
    UInt8.ofNat a < UInt8.ofNat b ↔ a < b := by
  rw [UInt8.lt_iff_toNat_lt, UInt8.toNat_ofNat_of_lt' ha, UInt8.toNat_ofNat_of_lt' hb]

theorem byte_inj {a b : Nat} (ha : a < 256) (hb : b < 256) :
    UInt8.ofNat a = UInt8.ofNat b ↔ a = b := by
  rw [← UInt8.toNat_inj, UInt8.toNat_ofNat_of_lt' ha, UInt8.toNat_ofNat_of_lt' hb]

theorem div_4096 (n : Nat) : n / 4096 = n / 64 / 64 := by omega

theorem div_262144 (n : Nat) : n / 262144 = n / 64 / 64 / 64 := by omega

/-! ## Characters and names -/

/-- A character has one to four bytes, and a longer one begins with a greater byte. Characters of
the same length are compared digit by digit, to the base of 64. -/
theorem utf8EncodeChar_append_lt {c c' : Char} (h : c < c') (rest rest' : List UInt8) :
    String.utf8EncodeChar c ++ rest < String.utf8EncodeChar c' ++ rest' := by
  have hlt : c.val.toNat < c'.val.toNat := h
  have hsmall : c'.val.toNat < 0x110000 := by
    rcases c'.valid with hlow | hhigh
    · exact Nat.lt_trans hlow (by decide)
    · exact hhigh.2
  -- What follows is never compared.
  generalize hrest : (rest < rest') = later
  unfold String.utf8EncodeChar
  generalize c.val.toNat = n at hlt
  generalize c'.val.toNat = n' at hlt hsmall
  simp only [div_4096, div_262144]
  -- A goal for each pair of lengths.
  split_ifs
  all_goals
    simp (disch := omega) only [List.cons_append, List.nil_append, List.cons_lt_cons_iff,
      byte_lt_iff, byte_inj]
    omega

theorem flatMap_utf8EncodeChar_lt {chars chars' : List Char} (h : chars < chars') :
    chars.flatMap String.utf8EncodeChar < chars'.flatMap String.utf8EncodeChar := by
  induction chars generalizing chars' with
  | nil =>
    cases chars' with
    | nil => exact absurd h (List.lt_irrefl _)
    | cons c' chars' =>
      obtain ⟨byte, bytes, hbytes⟩ := List.exists_cons_of_ne_nil (@String.utf8EncodeChar_ne_nil c')
      rw [List.flatMap_nil, List.flatMap_cons, hbytes]
      exact List.nil_lt_cons _ _
  | cons c chars ih =>
    cases chars' with
    | nil => exact absurd h (List.not_lt_nil _)
    | cons c' chars' =>
      rw [List.flatMap_cons, List.flatMap_cons]
      rcases List.cons_lt_cons_iff.1 h with hlt | ⟨rfl, hlt⟩
      · exact utf8EncodeChar_append_lt hlt _ _
      · exact List.append_left_lt (ih hlt)

namespace Names

/-- The UTF-8 bytes of a name. -/
def bytes (name : String) : List UInt8 := name.toUTF8.data.toList

theorem bytes_eq (name : String) : bytes name = name.toList.flatMap String.utf8EncodeChar := by
  rw [bytes, String.toUTF8_eq_toByteArray, ← String.utf8Encode_toList, List.utf8Encode,
    List.toList_data_toByteArray]

theorem bytes_lt {a b : String} (h : a < b) : bytes a < bytes b := by
  rw [bytes_eq, bytes_eq]
  exact flatMap_utf8EncodeChar_lt (String.lt_iff_toList_lt.1 h)

theorem bytes_le {a b : String} (h : a ≤ b) : bytes a ≤ bytes b := by
  rcases lt_or_eq_of_le h with hlt | rfl
  · exact List.le_of_lt (bytes_lt hlt)
  · exact List.le_refl _

end Names

end FrameEscape
