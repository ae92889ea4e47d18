import EnumNames.Text.Bytes

/-! Texts cut at byte positions, in terms of the bytes themselves and of texts put together. -/
namespace EnumNames.Text
open String.Pos

theorem pos?_of_isValid {text : String} {position : Raw} (valid : position.IsValid text) :
    text.pos? position = some (text.pos position valid) := by
  have inside : Raw.isValidForSlice text.toSlice position = true :=
    Raw.isValidForSlice_eq_true_iff.mpr valid.toSlice
  simp only [String.pos?, String.Slice.pos?, inside, dite_true, Option.map_some]
  rfl

theorem offset_of_pos? {text : String} {position : Raw} {found : text.Pos}
    (read : text.pos? position = some found) : found.offset = position := by
  simp only [String.pos?, String.Slice.pos?, Option.map_eq_some_iff] at read
  obtain ⟨place, read, rfl⟩ := read
  split at read
  · cases read
    rfl
  · cases read

/-- A part is cut out exactly between two character boundaries that stand in order. -/
theorem between?_eq_some_iff {text part : String} {start stop : Nat} :
    between? text start stop = some part ↔
      Raw.IsValid text ⟨start⟩ ∧ Raw.IsValid text ⟨stop⟩ ∧ start ≤ stop ∧
        part.toByteArray = text.toByteArray.extract start stop := by
  constructor
  · intro cut
    simp only [between?, Option.bind_eq_bind, Option.bind_eq_some_iff] at cut
    obtain ⟨first, readFirst, last, readLast, cut⟩ := cut
    split at cut
    · rename_i ordered
      cases cut
      have startEq := offset_of_pos? readFirst
      have stopEq := offset_of_pos? readLast
      refine ⟨startEq ▸ first.isValid, stopEq ▸ last.isValid, ?_, ?_⟩
      · simpa [startEq, stopEq, String.Pos.le_iff, Raw.le_iff] using ordered
      · simp [startEq, stopEq]
    · cases cut
  · rintro ⟨validStart, validStop, ordered, bytes⟩
    have inOrder : text.pos ⟨start⟩ validStart ≤ text.pos ⟨stop⟩ validStop := by
      simpa [String.Pos.le_iff, Raw.le_iff] using ordered
    simp only [between?, pos?_of_isValid validStart, pos?_of_isValid validStop,
      Option.bind_eq_bind, Option.bind_some, inOrder, if_true, Option.some.injEq]
    apply String.toByteArray_inj.mp
    simp [bytes]

/-- A part of known length and place is cut out of a text put together around it. -/
theorem between?_append (before part after : String) :
    between? (before ++ part ++ after) before.utf8ByteSize (before ++ part).utf8ByteSize =
      some part := by
  rw [between?_eq_some_iff]
  refine ⟨?_, ?_, ?_, ?_⟩
  · exact Raw.isValid_iff_exists_append.mpr
      ⟨before, part ++ after, String.append_assoc .., rfl⟩
  · exact Raw.isValid_iff_exists_append.mpr ⟨before ++ part, after, rfl, rfl⟩
  · simp
  · simp only [← String.size_toByteArray, String.toByteArray_append, ByteArray.append_assoc,
      ByteArray.size_append]
    have shifted := ByteArray.extract_append_size_add (a := before.toByteArray)
      (b := part.toByteArray ++ after.toByteArray) (i := 0) (j := part.toByteArray.size)
    rw [Nat.add_zero] at shifted
    rw [shifted, ByteArray.extract_append_eq_left rfl]

/-- Texts put together are told apart where the first ones are as long as each other. -/
theorem append_inj {a b c d : String} (size : a.utf8ByteSize = b.utf8ByteSize)
    (same : a ++ c = b ++ d) : a = b ∧ c = d := by
  have bytes := congrArg String.toByteArray same
  rw [String.toByteArray_append, String.toByteArray_append] at bytes
  have first := congrArg (ByteArray.extract · 0 a.utf8ByteSize) bytes
  rw [ByteArray.extract_append_eq_left (String.size_toByteArray ..).symm,
    ByteArray.extract_append_eq_left (size.trans (String.size_toByteArray ..).symm),
    String.toByteArray_inj] at first
  subst first
  exact ⟨rfl, (String.append_right_inj _).mp same⟩

end EnumNames.Text
