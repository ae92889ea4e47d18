/-! Writers take text piece by piece. -/
namespace EnumNames

/-- What text is written to. A piece is taken or it fails, and each time this leaves the writer in
some state. -/
structure Writer (σ : Type) where
  write : σ → String → Except σ σ

namespace Writer

/-- Writes the pieces in order and stops at the first that fails. -/
def writeAll (writer : Writer σ) (pieces : List String) (state : σ) : Except σ σ :=
  pieces.foldlM writer.write state

/-- Writes each piece in parts. -/
def inParts (writer : Writer σ) (parts : String → List String) : Writer σ where
  write state piece := writer.writeAll (parts piece) state

/-- Keeps a record of the pieces that are tried. -/
def recorded (writer : Writer σ) : Writer (σ × List String) where
  write := fun (state, tried) piece =>
    match writer.write state piece with
    | .ok next => .ok (next, tried ++ [piece])
    | .error final => .error (final, tried ++ [piece])

end Writer
end EnumNames
