import EnumNames.Text.Bytes
import EnumNames.Writer

/-! A place that text is written to piece by piece. It may hold a bounded number of bytes;
the piece that no longer fits is taken up to the last character boundary, and writing stops. -/
namespace EnumNames

/-- The text taken so far and, where there is a bound, the bytes that are still free. -/
structure Sink where
  text : String
  room : Option Nat
deriving DecidableEq, Repr

namespace Sink

/-- A sink without a bound. -/
def unbounded : Sink := ⟨"", none⟩

/-- A sink that takes `room` bytes. -/
def bounded (room : Nat) : Sink := ⟨"", some room⟩

/-- Takes one piece whole, or fails with what fits of it. -/
def write (sink : Sink) (piece : String) : Except Sink Sink :=
  match sink.room with
  | none => .ok ⟨sink.text ++ piece, none⟩
  | some room =>
    if piece.utf8ByteSize ≤ room then
      .ok ⟨sink.text ++ piece, some (room - piece.utf8ByteSize)⟩
    else
      .error ⟨sink.text ++ Text.fitting piece room, some 0⟩

def writer : Writer Sink := ⟨write⟩

/-- Takes the pieces in order and stops at the first that fails. -/
def writeAll (sink : Sink) (pieces : List String) : Except Sink Sink :=
  writer.writeAll pieces sink

end Sink
end EnumNames
