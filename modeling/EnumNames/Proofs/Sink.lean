import EnumNames.Proofs.Bytes
import EnumNames.Proofs.Writer
import EnumNames.Sink

/-! Writing to a place of limited size. The pieces that a text is written in do not matter: what is
taken is the longest beginning of the whole text that fits, cut between two characters, and the
piece that no longer fits is the last one that is tried. -/
namespace EnumNames
open String.Pos

namespace Text

/-- The longest beginning of a text that takes at most `room` bytes. A beginning is a text of its
own, so it ends between two characters. -/
structure Longest (text : String) (room : Nat) (part : String) : Prop where
  beginning : ∃ rest, text = part ++ rest
  fits : part.utf8ByteSize ≤ room
  longest : ∀ other rest, text = other ++ rest → other.utf8ByteSize ≤ room →
    other.utf8ByteSize ≤ part.utf8ByteSize

/-- Of two beginnings of a text one begins the other. -/
theorem append_eq_append_cases {a b c d : String} (same : a ++ b = c ++ d) :
    (∃ between, c = a ++ between ∧ b = between ++ d) ∨
      ∃ between, a = c ++ between ∧ d = between ++ b := by
  have characters : a.toList ++ b.toList = c.toList ++ d.toList := by
    rw [← String.toList_append, ← String.toList_append, same]
  rcases List.append_eq_append_iff.mp characters with
    ⟨between, front, back⟩ | ⟨between, front, back⟩
  · exact .inl ⟨.ofList between, String.toList_inj.mp (by simp [front]),
      String.toList_inj.mp (by simp [back])⟩
  · exact .inr ⟨.ofList between, String.toList_inj.mp (by simp [front]),
      String.toList_inj.mp (by simp [back])⟩

namespace Longest
variable {text other part : String} {room : Nat}

theorem unique (left : Longest text room part) (right : Longest text room other) :
    part = other := by
  obtain ⟨after, cut⟩ := left.beginning
  obtain ⟨behind, otherCut⟩ := right.beginning
  have atMost := left.longest other behind otherCut right.fits
  have atLeast := right.longest part after cut left.fits
  exact (append_inj (Nat.le_antisymm atLeast atMost) (cut.symm.trans otherCut)).1

/-- Where a first part does not fit, nothing behind it counts. -/
theorem append_right (longest : Longest text room part) (tight : room < text.utf8ByteSize)
    (later : String) : Longest (text ++ later) room part := by
  obtain ⟨⟨rest, cut⟩, fits, longest⟩ := longest
  refine ⟨⟨rest ++ later, by rw [cut, String.append_assoc]⟩, fits, ?_⟩
  intro other behind whole small
  rcases append_eq_append_cases whole with ⟨between, rfl, _⟩ | ⟨between, inside, _⟩
  · rw [String.utf8ByteSize_append] at small
    omega
  · exact longest other between inside small

/-- Where a first part fits, the rest of the room is for what is behind it. -/
theorem append_left (longest : Longest text room part) (first : String) :
    Longest (first ++ text) (first.utf8ByteSize + room) (first ++ part) := by
  obtain ⟨⟨rest, rfl⟩, fits, longest⟩ := longest
  refine ⟨⟨rest, (String.append_assoc ..).symm⟩, ?_, ?_⟩
  · rw [String.utf8ByteSize_append]
    omega
  intro other behind whole small
  rw [String.utf8ByteSize_append]
  rcases append_eq_append_cases whole with ⟨between, rfl, tail⟩ | ⟨between, rfl, _⟩
  · rw [String.utf8ByteSize_append] at small ⊢
    have := longest between behind tail (by omega)
    omega
  · rw [String.utf8ByteSize_append]
    omega

end Longest

theorem longest_fitting (text : String) (room : Nat) : Longest text room (fitting text room) := by
  have splits := (text.posLE ⟨room⟩).splits
  have front : fitting text room = (text.sliceTo (text.posLE ⟨room⟩)).copy := by
    rw [fitting, ← String.toByteArray_inj, String.toByteArray_extract, splits.toByteArray_eq_left]
    rfl
  have size : (fitting text room).utf8ByteSize = (text.posLE ⟨room⟩).offset.byteIdx := by
    rw [front, splits.offset_eq_rawEndPos, String.byteIdx_rawEndPos]
  refine ⟨⟨_, front ▸ splits.eq_append⟩, ?_, ?_⟩
  · rw [size]
    exact String.offset_posLE_le (s := text) (p := ⟨room⟩)
  · intro other rest cut small
    have valid : Raw.IsValid text ⟨other.utf8ByteSize⟩ :=
      Raw.isValid_iff_exists_append.mpr ⟨other, rest, cut, rfl⟩
    have before : text.pos ⟨other.utf8ByteSize⟩ valid ≤ text.posLE ⟨room⟩ :=
      String.le_posLE_iff.mpr small
    rw [size]
    exact before

end Text

namespace Sink

theorem write_of_le {text piece : String} {room : Nat} (fits : piece.utf8ByteSize ≤ room) :
    write ⟨text, some room⟩ piece = .ok ⟨text ++ piece, some (room - piece.utf8ByteSize)⟩ :=
  if_pos fits

theorem write_of_lt {text piece : String} {room : Nat} (tight : room < piece.utf8ByteSize) :
    write ⟨text, some room⟩ piece = .error ⟨text ++ Text.fitting piece room, some 0⟩ :=
  if_neg (Nat.not_le.mpr tight)

/-- Two pieces are written like one. -/
theorem write_append (sink : Sink) (first second : String) :
    sink.write (first ++ second) = (sink.write first).bind (·.write second) := by
  obtain ⟨text, room⟩ := sink
  cases room with
  | none => simp only [write, Except.bind, String.append_assoc]
  | some room =>
    have size := String.utf8ByteSize_append (s := first) (t := second)
    by_cases fits : first.utf8ByteSize ≤ room
    · rw [write_of_le fits, Except.bind]
      by_cases both : second.utf8ByteSize ≤ room - first.utf8ByteSize
      · rw [write_of_le both, write_of_le (by omega), size, String.append_assoc, Nat.sub_sub]
      · have longest :=
          (Text.longest_fitting second (room - first.utf8ByteSize)).append_left first
        rw [Nat.add_sub_of_le fits] at longest
        rw [write_of_lt (by omega), write_of_lt (by omega), String.append_assoc,
          longest.unique (Text.longest_fitting (first ++ second) room)]
    · have tight : room < first.utf8ByteSize := Nat.not_le.mp fits
      have longest := (Text.longest_fitting first room).append_right tight second
      rw [write_of_lt tight, write_of_lt (by omega), Except.bind,
        longest.unique (Text.longest_fitting (first ++ second) room)]

@[simp] theorem write_empty (sink : Sink) : sink.write "" = .ok sink := by
  obtain ⟨text, room⟩ := sink
  cases room <;> simp [write]

/-- It does not matter into which pieces a text is cut. -/
theorem writeAll_eq_write_join (sink : Sink) (pieces : List String) :
    sink.writeAll pieces = sink.write (String.join pieces) := by
  induction pieces generalizing sink with
  | nil => exact (write_empty sink).symm
  | cons piece pieces ih =>
    rw [String.join_cons, write_append, writeAll, Writer.writeAll_cons]
    exact congrArg (Except.bind (sink.write piece)) (funext ih)

/-- An operation writes these pieces, in order and nothing else. All of their text is taken where
there is room for it. Where there is not, the longest beginning that fits is taken, and the
operation ends with the failure of the first piece that does not fit. What an operation tries is on
record in `Writer.Emits`. -/
structure Writes (operation : Sink → Except Sink Sink) (pieces : List String) : Prop where
  inOrder : ∀ sink, operation sink = sink.writeAll pieces
  whole : operation unbounded = .ok ⟨String.join pieces, none⟩
  fits : ∀ room, (String.join pieces).utf8ByteSize ≤ room → operation (bounded room) =
    .ok ⟨String.join pieces, some (room - (String.join pieces).utf8ByteSize)⟩
  stops : ∀ room, room < (String.join pieces).utf8ByteSize → ∃ part,
    Text.Longest (String.join pieces) room part ∧
      operation (bounded room) = .error ⟨part, some 0⟩ ∧
      ∃ before piece after reached, pieces = before ++ piece :: after ∧
        (bounded room).writeAll before = .ok reached ∧ reached.write piece = .error ⟨part, some 0⟩

theorem Writes.of_writeAll {operation : Sink → Except Sink Sink} {pieces : List String}
    (inOrder : ∀ sink, operation sink = sink.writeAll pieces) : Writes operation pieces := by
  have atOnce (sink : Sink) : operation sink = sink.write (String.join pieces) :=
    (inOrder sink).trans (writeAll_eq_write_join sink pieces)
  refine ⟨inOrder, ?_, ?_, ?_⟩
  · rw [atOnce]
    simp [unbounded, write]
  · intro room small
    rw [atOnce, bounded, write_of_le small, String.empty_append]
  · intro room tight
    have failed : operation (bounded room) =
        .error ⟨Text.fitting (String.join pieces) room, some 0⟩ := by
      rw [atOnce, bounded, write_of_lt tight, String.empty_append]
    exact ⟨_, Text.longest_fitting _ room, failed,
      Writer.writeAll_eq_error ((inOrder _).symm.trans failed)⟩

end Sink
end EnumNames
