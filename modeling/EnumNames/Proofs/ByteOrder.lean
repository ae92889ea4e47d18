import Mathlib.Data.String.Basic
import Mathlib.Order.Basic

/-! The order of texts by characters is the order of their bytes. A character with a larger number
has more bytes in UTF-8, and then a larger first byte, or it has as many bytes and the first byte
that differs is larger. -/
namespace EnumNames.Text

/-- The bytes of a text in UTF-8. -/
def utf8 (text : String) : List UInt8 := text.toUTF8.data.toList

theorem utf8_eq_flatMap (text : String) :
    utf8 text = text.toList.flatMap String.utf8EncodeChar := by
  rw [utf8, String.toUTF8, ← String.utf8Encode_toList, List.utf8Encode, List.data_toByteArray]

/-- The bytes in front decide unless they are the same. -/
theorem ofNat_cons_lt {m n : Nat} {left right : List UInt8} (ordered : m ≤ n) (bound : n < 256)
    (behind : m = n → left < right) : UInt8.ofNat m :: left < UInt8.ofNat n :: right := by
  rcases Nat.lt_or_eq_of_le ordered with less | same
  · refine List.cons_lt_cons_iff.mpr (.inl ?_)
    rw [UInt8.lt_iff_toNat_lt, UInt8.toNat_ofNat', UInt8.toNat_ofNat']
    omega
  · exact List.cons_lt_cons_iff.mpr (.inr ⟨congrArg UInt8.ofNat same, behind same⟩)

/-- The bytes of two characters decide whatever follows them. -/
theorem utf8EncodeChar_append_lt {c d : Char} (less : c < d) (left right : List UInt8) :
    String.utf8EncodeChar c ++ left < String.utf8EncodeChar d ++ right := by
  have order : c.val.toNat < d.val.toNat := UInt32.lt_iff_toNat_lt.mp less
  have bound : d.val.toNat < 0x110000 := by
    rcases d.valid with low | ⟨_, high⟩
    · exact low.trans (by decide)
    · exact high
  simp only [String.utf8EncodeChar]
  generalize c.val.toNat = m at *
  generalize d.val.toNat = n at *
  -- A larger number has no fewer bytes, so the cases are the bytes of `m` and then more of `n`.
  split
  · split
    · exact ofNat_cons_lt order.le (by omega) fun same => absurd same order.ne
    split
    · exact ofNat_cons_lt (by omega) (by omega) (by omega)
    split
    · exact ofNat_cons_lt (by omega) (by omega) (by omega)
    · exact ofNat_cons_lt (by omega) (by omega) (by omega)
  rw [if_neg (show ¬n ≤ 127 by omega)]
  split
  · split
    · exact ofNat_cons_lt (by omega) (by omega) fun _ =>
        ofNat_cons_lt (by omega) (by omega) (by omega)
    split
    · exact ofNat_cons_lt (by omega) (by omega) (by omega)
    · exact ofNat_cons_lt (by omega) (by omega) (by omega)
  rw [if_neg (show ¬n ≤ 2047 by omega)]
  split
  · split
    · exact ofNat_cons_lt (by omega) (by omega) fun _ =>
        ofNat_cons_lt (by omega) (by omega) fun _ =>
          ofNat_cons_lt (by omega) (by omega) (by omega)
    · exact ofNat_cons_lt (by omega) (by omega) (by omega)
  rw [if_neg (show ¬n ≤ 65535 by omega)]
  exact ofNat_cons_lt (by omega) (by omega) fun _ =>
    ofNat_cons_lt (by omega) (by omega) fun _ =>
      ofNat_cons_lt (by omega) (by omega) fun _ =>
        ofNat_cons_lt (by omega) (by omega) (by omega)

theorem utf8_lt_of_lt {left right : String} (less : left < right) : utf8 left < utf8 right := by
  rw [utf8_eq_flatMap, utf8_eq_flatMap]
  rw [String.lt_iff_toList_lt] at less
  generalize left.toList = left at less
  generalize right.toList = right at less
  induction less with
  | @nil c rest =>
    obtain ⟨byte, bytes, whole⟩ := List.exists_cons_of_ne_nil (@String.utf8EncodeChar_ne_nil c)
    rw [List.flatMap_cons, whole]
    exact List.nil_lt_cons _ _
  | cons _ ih => exact List.Lex.append_left _ ih _
  | rel less => exact utf8EncodeChar_append_lt less _ _

theorem utf8_lt_iff {left right : String} : utf8 left < utf8 right ↔ left < right := by
  refine ⟨fun less => ?_, utf8_lt_of_lt⟩
  rcases lt_trichotomy left right with before | rfl | behind
  · exact before
  · exact absurd less (List.lt_irrefl _)
  · exact absurd less (List.lt_asymm (utf8_lt_of_lt behind))

end EnumNames.Text
