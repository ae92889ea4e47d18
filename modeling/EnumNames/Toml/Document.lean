import EnumNames.Toml.Literal

/-! Documents: statements line by line, put together into tables. -/
namespace EnumNames.Toml

inductive Statement
  | assign (assignment : Assignment)
  /-- `[path]`, from bracket to bracket. -/
  | header (path : Path) (extent : Extent)
  /-- `[[path]]`, from bracket to bracket. -/
  | row (path : Path) (extent : Extent)

/-- A header behind its opening brackets: a path and as many closing brackets. -/
def header? (most : Nat) (brackets : List Char) : Reader Path := fun text =>
  match path? most (skipBlanks text) with
  | none => none
  | some ⟨path, rest, _⟩ =>
    if brackets.isPrefixOf (skipBlanks rest) then
      some ⟨path, (skipBlanks rest).drop brackets.length, by
        have := skipBlanks_le text
        have := skipBlanks_le rest
        rw [List.length_drop]
        omega⟩
    else none

/-- A statement without the line end behind it. -/
def statement? (limits : Limits) : Reader Statement := fun text =>
  match text with
  | '[' :: '[' :: inner =>
    (header? limits.parents [']', ']'] inner).map fun reading =>
      (reading.map fun path => Statement.row path ⟨text, reading.rest⟩).after.after
  | '[' :: inner =>
    (header? limits.parents [']'] inner).map fun reading =>
      (reading.map fun path => Statement.header path ⟨text, reading.rest⟩).after
  | text =>
    (assignment? limits.parents .oneLine (value? limits.parents limits.nesting) text).map
      (·.map .assign)

/-- The statements of a text, each on lines of its own; `read` are those before, the last first. -/
def statements? (limits : Limits) (read : List Statement) (text : List Char) :
    Option (List Statement) :=
  if (skipSpace text).isEmpty then some read.reverse
  else
    match statement? limits (skipSpace text) with
    | none => none
    | some ⟨statement, rest, _⟩ =>
      match finishLine? rest with
      | none => none
      | some ⟨behind, _⟩ => statements? limits (statement :: read) behind
termination_by text.length
decreasing_by
  have := skipSpace_le text
  omega

/-- Carries out a statement. The number is that of the table opened by the last header. -/
def Statement.perform? (state : Assembly × Nat) : Statement → Option (Assembly × Nat)
  | .assign ⟨path, extent, value⟩ =>
    (state.1.assign? state.2 path extent value).map fun assembly => (assembly, state.2)
  | .header path extent => state.1.openTable? path extent
  | .row path extent => state.1.openRow? path extent

/-- A byte order mark at the beginning of a source is no part of the document. -/
def withoutMark : List Char → List Char
  | '\ufeff' :: text => text
  | text => text

/-- The tables of a source, if it is a document. -/
def document? (limits : Limits) (source : List Char) : Option Assembly := do
  let statements ← statements? limits [] (withoutMark source)
  let (assembly, _) ← statements.foldlM Statement.perform? (.empty, 0)
  return assembly

end EnumNames.Toml
