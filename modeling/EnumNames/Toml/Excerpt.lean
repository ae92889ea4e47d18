import EnumNames.Toml.Key

/-! The line of a source that an extent begins on, with marks under the extent. -/
namespace EnumNames.Toml

/-- Lines and columns are counted from one, columns in characters. There is a mark for each byte
of the extent that lies on its first line, and at least one. -/
structure Excerpt where
  line : Nat
  column : Nat
  source : String
  marks : Nat
deriving DecidableEq, Repr

namespace Excerpt

/-- How many bytes characters take in UTF-8. -/
def bytes (text : List Char) : Nat := (String.ofList text).utf8ByteSize

def ofExtent (source : List Char) (extent : Extent) : Excerpt :=
  let before := source.take (source.length - extent.start.length)
  let left := (before.reverse.takeWhile (· != '\n')).reverse
  let line := left ++ extent.start.takeWhile (· != '\n')
  let covered := extent.start.take (extent.start.length - extent.stop.length)
  { line := before.count '\n' + 1
    column := left.length + 1
    source := .ofList line
    marks := max 1 (min (bytes covered) (bytes line - left.length)) }

def blanks (count : Nat) : String := .ofList (List.replicate count ' ')

/-- Four lines: where the extent is, a rule, the source line with its number, and the marks. -/
def text (excerpt : Excerpt) : String :=
  let number := toString excerpt.line
  let gutter := blanks number.length
  "TOML parse error at line " ++ number ++ ", column " ++ toString excerpt.column ++ "\n" ++
    gutter ++ " |\n" ++
    number ++ " | " ++ excerpt.source ++ "\n" ++
    gutter ++ " | " ++ blanks (excerpt.column - 1) ++
      .ofList (List.replicate excerpt.marks '^') ++ "\n"

end Excerpt
end EnumNames.Toml
