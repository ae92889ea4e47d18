import EnumNames.Toml.Quoted

/-! The grammar of TOML, first part: what means nothing, and strings. A rule relates a text to what
stands at its beginning and to the text behind it. -/
namespace EnumNames.Toml

/-- What a text begins with, and what is left behind it. -/
abbrev Form (α : Type) := List Char → α → List Char → Prop

/-! ### Blanks, line ends and comments -/

/-- Blanks in front of the rest of a text. -/
inductive Blanks : List Char → List Char → Prop
  | none {rest : List Char} : Blanks rest rest
  | blank {c : Char} {text rest : List Char} (first : isBlank c) (others : Blanks text rest) :
    Blanks (c :: text) rest

/-- A line end in front of the rest of a text. -/
inductive LineEnd : List Char → List Char → Prop
  | lineFeed {rest : List Char} : LineEnd ('\n' :: rest) rest
  | both {rest : List Char} : LineEnd ('\r' :: '\n' :: rest) rest

/-- The end of a line or of the whole text. -/
inductive Ends : List Char → Prop
  | text : Ends []
  | line {text rest : List Char} (lineEnd : LineEnd text rest) : Ends text

/-- What a line may end with: blanks, and perhaps a comment. -/
inductive Tail : List Char → List Char → Prop
  | none {rest : List Char} (ends : Ends rest) : Tail rest rest
  | blank {c : Char} {text rest : List Char} (first : isBlank c) (others : Tail text rest) :
    Tail (c :: text) rest
  | comment {chars rest : List Char} (inside : chars.all isLineChar) (ends : Ends rest) :
    Tail ('#' :: (chars ++ rest)) rest

/-- Blanks and line ends, with comments in front of line ends. -/
inductive Space : List Char → List Char → Prop
  | none {rest : List Char} : Space rest rest
  | blank {c : Char} {text rest : List Char} (first : isBlank c) (others : Space text rest) :
    Space (c :: text) rest
  | line {text next rest : List Char} (lineEnd : LineEnd text next) (others : Space next rest) :
    Space text rest
  | comment {chars text next rest : List Char} (inside : chars.all isLineChar)
      (lineEnd : LineEnd text next) (others : Space next rest) :
    Space ('#' :: (chars ++ text)) rest

/-! ### Strings on one line -/

/-- One character of a basic string: itself, a short escape, or an escape with its number. -/
inductive Spelled : Form Char
  | raw {c : Char} {rest : List Char} (inside : isLineChar c) (mark : c ≠ '"') (slash : c ≠ '\\') :
    Spelled (c :: rest) c rest
  | letter {letter c : Char} {rest : List Char} (short : plainEscape? letter = some c) :
    Spelled ('\\' :: letter :: rest) c rest
  | number {kind c : Char} {digits rest : List Char}
      (size : (kind, digits.length) ∈ [('x', 2), ('u', 4), ('U', 8)])
      (hex : digits.all isHexDigit) (same : ofDigits 16 digits = c.toNat) :
    Spelled ('\\' :: kind :: (digits ++ rest)) c rest

/-- A basic string behind its opening mark. -/
inductive Basic : Form (List Char)
  | close {rest : List Char} : Basic ('"' :: rest) [] rest
  | char {text next rest chars : List Char} {c : Char} (first : Spelled text c next)
      (others : Basic next chars rest) : Basic text (c :: chars) rest

/-- A literal string behind its opening mark. -/
inductive Literal : Form (List Char)
  | close {rest : List Char} : Literal ('\'' :: rest) [] rest
  | char {text rest chars : List Char} {c : Char} (inside : isLineChar c) (mark : c ≠ '\'')
      (others : Literal text chars rest) : Literal (c :: text) (c :: chars) rest

/-- A string on one line, with its marks. -/
inductive OneLine : Form String
  | basic {text chars rest : List Char} (inside : Basic text chars rest) :
    OneLine ('"' :: text) (.ofList chars) rest
  | literal {text chars rest : List Char} (inside : Literal text chars rest) :
    OneLine ('\'' :: text) (.ofList chars) rest

/-! ### Strings of several lines -/

/-- A string of several lines behind its opening marks, from units that stand for characters and
line ends that stand for themselves. One or two marks belong to the string, and so do as many in
front of the three that close it. -/
inductive Multiline (mark : Char) (unit : Form (List Char)) : Form (List Char)
  | close {count : Nat} {rest : List Char} (few : count ≤ 2) (alone : rest.head? ≠ some mark) :
    Multiline mark unit (List.replicate (count + 3) mark ++ rest) (List.replicate count mark) rest
  | marks {count : Nat} {text chars rest : List Char} (few : count = 1 ∨ count = 2)
      (alone : text.head? ≠ some mark) (others : Multiline mark unit text chars rest) :
    Multiline mark unit (List.replicate count mark ++ text) (List.replicate count mark ++ chars)
      rest
  | lineFeed {text chars rest : List Char} (others : Multiline mark unit text chars rest) :
    Multiline mark unit ('\n' :: text) ('\n' :: chars) rest
  | both {text chars rest : List Char} (others : Multiline mark unit text chars rest) :
    Multiline mark unit ('\r' :: '\n' :: text) ('\r' :: '\n' :: chars) rest
  | unit {text chars next behind rest : List Char} (first : unit text chars next)
      (others : Multiline mark unit next behind rest) :
    Multiline mark unit text (chars ++ behind) rest

/-- Blanks and line ends. -/
inductive Gap : List Char → List Char → Prop
  | none {rest : List Char} : Gap rest rest
  | blank {c : Char} {text rest : List Char} (first : isBlank c) (others : Gap text rest) :
    Gap (c :: text) rest
  | lineEnd {text next rest : List Char} (first : LineEnd text next) (others : Gap next rest) :
    Gap text rest

/-- No gap is left in front of a text. -/
structure Solid (text : List Char) : Prop where
  noBlank : ∀ c ∈ text.head?, isBlank c = false
  noLineEnd : ∀ rest, ¬LineEnd text rest

/-- A character, or a backslash at the end of a line with all of the gap behind it. -/
inductive BasicUnit : Form (List Char)
  | char {text next : List Char} {c : Char} (spelled : Spelled text c next) :
    BasicUnit text [c] next
  | joint {text line behind next : List Char} (blanks : Blanks text line)
      (lineEnd : LineEnd line behind) (gap : Gap behind next) (solid : Solid next) :
    BasicUnit ('\\' :: text) [] next

inductive LiteralUnit : Form (List Char)
  | char {c : Char} {rest : List Char} (inside : isLineChar c) (mark : c ≠ '\'') :
    LiteralUnit (c :: rest) [c] rest

/-- The text behind opening marks of several lines, without a line end that follows them. -/
inductive Opened : List Char → List Char → Prop
  | lineEnd {text rest : List Char} (first : LineEnd text rest) : Opened text rest
  | none {text : List Char} (absent : ∀ rest, ¬LineEnd text rest) : Opened text text

/-- A string in any form, with its marks. -/
inductive Quoted : Form String
  | oneLine {text rest : List Char} {value : String} (single : OneLine text value rest) :
    Quoted text value rest
  | basic {text inner chars rest : List Char} (opened : Opened text inner)
      (inside : Multiline '"' BasicUnit inner chars rest) :
    Quoted ('"' :: '"' :: '"' :: text) (.ofList chars) rest
  | literal {text inner chars rest : List Char} (opened : Opened text inner)
      (inside : Multiline '\'' LiteralUnit inner chars rest) :
    Quoted ('\'' :: '\'' :: '\'' :: text) (.ofList chars) rest

end EnumNames.Toml
