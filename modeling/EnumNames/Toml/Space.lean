import EnumNames.Toml.Reading

/-! What stands between the parts of a TOML document and means nothing: blanks, line ends and
comments. -/
namespace EnumNames.Toml

/-- Blanks stay on their line. -/
def isBlank (c : Char) : Bool := c == ' ' || c == '\t'

/-- What a line may hold: a tab, and all characters that are not controls of ASCII. -/
def isLineChar (c : Char) : Bool := c == '\t' || (' ' ≤ c && c != '\x7f')

def skipBlanks (text : List Char) : List Char := text.dropWhile isBlank

/-- Skips a comment, up to what cannot stand in one. -/
def skipComment : List Char → List Char
  | '#' :: rest => rest.dropWhile isLineChar
  | text => text

/-- A line feed, or a carriage return with a line feed. -/
def lineEnd? : Reader Unit
  | '\n' :: rest => some (.first () rest)
  | '\r' :: '\n' :: rest => some (.after (.first () rest))
  | _ => none

theorem length_dropWhile_le (p : Char → Bool) (text : List Char) :
    (text.dropWhile p).length ≤ text.length :=
  (List.dropWhile_sublist p).length_le

theorem skipBlanks_le (text : List Char) : (skipBlanks text).length ≤ text.length :=
  length_dropWhile_le _ _

theorem skipComment_le (text : List Char) : (skipComment text).length ≤ text.length := by
  unfold skipComment
  split
  · exact Nat.le_succ_of_le (length_dropWhile_le _ _)
  · exact Nat.le_refl _

/-- Skips blanks, line ends and comments. A carriage return without a line feed is none of these. -/
def skipSpace : List Char → List Char
  | [] => []
  | '\r' :: '\n' :: rest => skipSpace rest
  | c :: rest =>
    if isBlank c || c == '\n' then skipSpace rest
    else if c == '#' then skipSpace (rest.dropWhile isLineChar)
    else c :: rest
termination_by text => text.length
decreasing_by
  · exact Nat.lt_succ_of_lt (Nat.lt_succ_self _)
  · exact Nat.lt_succ_self _
  · exact Nat.lt_succ_of_le (length_dropWhile_le _ _)

theorem skipSpace_le (text : List Char) : (skipSpace text).length ≤ text.length := by
  fun_induction skipSpace text with
  | case1 => exact Nat.le_refl _
  | case2 rest ih => exact Nat.le_succ_of_le (Nat.le_succ_of_le ih)
  | case3 c rest _ _ ih => exact Nat.le_succ_of_le ih
  | case4 c rest _ _ _ ih => exact Nat.le_succ_of_le (Nat.le_trans ih (length_dropWhile_le _ _))
  | case5 => exact Nat.le_refl _

/-- What may stand between the parts of an assignment. -/
inductive Spacing
  /-- Blanks. -/
  | oneLine
  /-- Blanks, line ends and comments. -/
  | manyLines
deriving DecidableEq, Repr

def Spacing.skip : Spacing → List Char → List Char
  | .oneLine => skipBlanks
  | .manyLines => skipSpace

theorem Spacing.skip_le (spacing : Spacing) (text : List Char) :
    (spacing.skip text).length ≤ text.length := by
  cases spacing
  · exact skipBlanks_le text
  · exact skipSpace_le text

/-- What follows a statement on its line: blanks, a comment, and then the line or the text must
end. The line end is left. -/
def finishLine? (text : List Char) : Option { rest : List Char // rest.length ≤ text.length } :=
  let rest := skipComment (skipBlanks text)
  if rest.isEmpty || (lineEnd? rest).isSome then
    some ⟨rest, Nat.le_trans (skipComment_le _) (skipBlanks_le _)⟩
  else none

end EnumNames.Toml
