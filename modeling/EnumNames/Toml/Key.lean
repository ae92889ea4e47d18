import EnumNames.Toml.Quoted

/-! TOML keys, alone and joined by points. -/
namespace EnumNames.Toml

/-- A part of a document, given by the text from its beginning on and the text behind its end. -/
structure Extent where
  start : List Char
  stop : List Char
deriving DecidableEq, Repr

/-- A key and where it is written. -/
structure Key where
  name : String
  extent : Extent
deriving DecidableEq, Repr

/-- A key behind the keys of the tables that lead to it. -/
structure Path where
  parents : List Key
  last : Key
deriving DecidableEq, Repr

def Path.names (path : Path) : List String := path.parents.map Key.name ++ [path.last.name]

/-- How far a document is followed: how many keys may stand in front of the last of a path, and how
deep arrays and tables may stand inside one another. Every document is within some limits. -/
structure Limits where
  parents : Nat
  nesting : Nat
deriving DecidableEq, Repr

/-- What a key without quotation marks is made of. -/
def isBareKeyChar (c : Char) : Bool := c.isAlphanum || c == '_' || c == '-'

theorem dropWhile_shorter {p : Char → Bool} {text : List Char} (h : text.takeWhile p ≠ []) :
    (text.dropWhile p).length < text.length := by
  have whole := congrArg List.length (List.takeWhile_append_dropWhile (p := p) (l := text))
  have := List.length_pos_iff.2 h
  rw [List.length_append] at whole
  omega

/-- A single key, bare or as a string on one line. -/
def keyName? : Reader String := fun text =>
  if h : text.takeWhile isBareKeyChar = [] then singleLine? text
  else some ⟨.ofList (text.takeWhile isBareKeyChar), text.dropWhile isBareKeyChar, dropWhile_shorter h⟩

/-- The keys of a path in turn, with points between them; blanks may stand around the points.
`parents` are the keys read before, the last first, and at most `most` of them are allowed. -/
def keys? (most : Nat) (parents : List Key) (text : List Char) : Option (Path × List Char) :=
  match keyName? text with
  | none => none
  | some ⟨name, rest, _⟩ =>
    let key : Key := ⟨name, text, rest⟩
    match symbol? '.' (skipBlanks rest) with
    | some ⟨_, behind, _⟩ => keys? most (key :: parents) (skipBlanks behind)
    | none => if parents.length ≤ most then some (⟨parents.reverse, key⟩, rest) else none
termination_by text.length
decreasing_by
  have := skipBlanks_le rest
  have := skipBlanks_le behind
  omega

theorem keys?_shorter {most : Nat} {parents : List Key} {text rest : List Char} {path : Path}
    (h : keys? most parents text = some (path, rest)) : rest.length < text.length := by
  fun_induction keys? most parents text with
  | case1 => cases h
  | case2 parents text name tail shorter _ key _ behind shorterBehind _ ih =>
    have := skipBlanks_le tail
    have := skipBlanks_le behind
    have := ih h
    omega
  | case3 parents text name tail shorter =>
    cases h
    exact shorter
  | case4 => cases h

def path? (most : Nat) : Reader Path := fun text =>
  Reading.of? (keys? most [] text) fun _ _ => keys?_shorter

end EnumNames.Toml
