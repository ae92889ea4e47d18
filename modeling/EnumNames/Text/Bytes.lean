/-! Texts cut at positions counted in bytes of UTF-8. A cut never splits a character: one
of these operations refuses such a position, the other moves back to the nearest boundary. -/
namespace EnumNames.Text

/-- The part of a text from byte `start` to byte `stop`; none when either lies inside a
character or past the end, or when they come in the wrong order. -/
def between? (text : String) (start stop : Nat) : Option String := do
  let first ← text.pos? ⟨start⟩
  let last ← text.pos? ⟨stop⟩
  if first ≤ last then some (text.extract first last) else none

/-- The longest beginning of a text that takes at most `room` bytes. -/
def fitting (text : String) (room : Nat) : String :=
  text.extract text.startPos (text.posLE ⟨room⟩)

end EnumNames.Text
