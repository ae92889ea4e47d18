import EnumNames.Toml.Moment
import EnumNames.Toml.Table

/-! Values as they are written: strings, words, and arrays and tables of values in brackets. -/
namespace EnumNames.Toml

/-- What words are made of: everything but blanks, line ends, the mark of a comment, and what joins or
encloses values. -/
def isWordChar (c : Char) : Bool :=
  !(isBlank c || c == '\n' || c == '\r' || c == '#' || c == ',' || c == '=' || c == '[' || c == ']' ||
    c == '\x7b' || c == '\x7d')

/-- The value that a word stands for. -/
def word? (word : List Char) : Option Value :=
  if word = ['t', 'r', 'u', 'e'] then some (.boolean true)
  else if word = ['f', 'a', 'l', 's', 'e'] then some (.boolean false)
  else if isTime word || isDate word || isDateTime word then some (.moment (.ofList word))
  else ((integer? word).map .integer).or ((floating? word).map .floating)

/-- Whether a text begins with a character of a word, but not with a mark of a string. -/
def startsWord : List Char → Bool
  | c :: _ => isWordChar c && c != '"' && c != '\''
  | [] => false

/-- The word at the beginning of a text. Blanks belong to it if it goes on behind them. -/
def firstWord (text : List Char) : List Char × List Char :=
  let front := text.takeWhile isWordChar
  let rest := text.dropWhile isWordChar
  if front ≠ [] ∧ startsWord (skipBlanks rest) then
    let more := firstWord (skipBlanks rest)
    (front ++ rest.takeWhile isBlank ++ more.1, more.2)
  else (front, rest)
termination_by text.length
decreasing_by
  rename_i h
  exact Nat.lt_of_le_of_lt (skipBlanks_le _) (dropWhile_shorter h.1)

theorem append_firstWord (text : List Char) : (firstWord text).1 ++ (firstWord text).2 = text := by
  fun_induction firstWord text with
  | case1 text front rest goesOn more ih =>
    rw [List.append_assoc, ih, List.append_assoc, skipBlanks, List.takeWhile_append_dropWhile]
    exact List.takeWhile_append_dropWhile
  | case2 text front rest => exact List.takeWhile_append_dropWhile

/-- A string or a word. -/
def scalar? : Reader Value := fun text =>
  match string? text with
  | some reading => some (reading.map .string)
  | none =>
    if h : (firstWord text).1 = [] then none
    else (word? (firstWord text).1).map fun value =>
      ⟨value, (firstWord text).2, by
        have whole := congrArg List.length (append_firstWord text)
        have := List.length_pos_iff.2 h
        rw [List.length_append] at whole
        omega⟩

/-- A path and the value it is given, with the extent of the value. -/
structure Assignment where
  path : Path
  extent : Extent
  value : Value

/-- A path, an equals sign and a value. The spacing is that around the sign; the path itself stays
on one line. -/
def assignment? (most : Nat) (spacing : Spacing) (value : Reader Value) : Reader Assignment := fun text =>
  match path? most text with
  | none => none
  | some ⟨path, rest, _⟩ =>
    match symbol? '=' (spacing.skip rest) with
    | none => none
    | some ⟨_, behind, _⟩ =>
      (value (spacing.skip behind)).map fun reading =>
        ⟨⟨path, ⟨spacing.skip behind, reading.rest⟩, reading.found⟩, reading.rest, by
          have := spacing.skip_le rest
          have := spacing.skip_le behind
          have := reading.shorter
          omega⟩

/-- Items with commas between them up to a closing bracket; a comma may stand behind the last one.
The text begins behind the opening bracket, and `read` holds the items before it, the last first. -/
def items? (closing : Char) (item : Reader α) (read : List α) (text : List Char) :
    Option (List α × List Char) :=
  match symbol? closing (skipSpace text), item (skipSpace text) with
  | some ⟨_, rest, _⟩, _ => some (read.reverse, rest)
  | none, none => none
  | none, some ⟨found, rest, _⟩ =>
    match symbol? ',' (skipSpace rest), symbol? closing (skipSpace rest) with
    | some ⟨_, behind, _⟩, _ => items? closing item (found :: read) behind
    | none, some ⟨_, behind, _⟩ => some ((found :: read).reverse, behind)
    | none, none => none
termination_by text.length
decreasing_by
  have := skipSpace_le text
  have := skipSpace_le rest
  omega

theorem items?_shorter {closing : Char} {item : Reader α} {read found : List α}
    {text rest : List Char} (h : items? closing item read text = some (found, rest)) :
    rest.length < text.length := by
  fun_induction items? closing item read text with
  | case1 read text _ tail shorter =>
    cases h
    exact Nat.lt_of_lt_of_le shorter (skipSpace_le text)
  | case2 => cases h
  | case3 read text _ tail shorter _ _ _ behind shorterBehind _ ih =>
    have := skipSpace_le text
    have := skipSpace_le tail
    have := ih h
    omega
  | case4 read text _ tail shorter _ _ _ behind shorterBehind =>
    cases h
    have := skipSpace_le text
    have := skipSpace_le tail
    omega
  | case5 => cases h

/-- Values under the paths that lead to them, if they fit together in one table. -/
def inlineTable? (assignments : List Assignment) : Option Value :=
  (assignments.foldlM (fun (assembly : Assembly) assignment =>
      assembly.assign? 0 assignment.path assignment.extent assignment.value) .empty).map fun _ =>
    .table (assignments.map fun assignment => (assignment.path.names, assignment.value))

/-- A value; brackets may open inside one another up to a depth. -/
def value? (most : Nat) : Nat → Reader Value
  | depth + 1, '[' :: inner =>
    (Reading.of? (items? ']' (value? most depth) [] inner) fun _ _ => items?_shorter).map fun reading =>
      (reading.map Value.array).after
  | depth + 1, '\x7b' :: inner =>
    (Reading.of? (items? '\x7d' (assignment? most .manyLines (value? most depth)) [] inner)
      fun _ _ => items?_shorter).bind fun reading =>
        (inlineTable? reading.found).map fun table =>
          (reading.map fun _ => table).after
  | _, text => scalar? text

end EnumNames.Toml
