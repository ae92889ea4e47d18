import EnumNames.Toml.Digit
import EnumNames.Toml.Space

/-! The four forms of TOML strings. Basic strings have escapes, literal strings have none; either
form can run over several lines between tripled quotation marks. -/
namespace EnumNames.Toml

/-- A character given by its number in as many hexadecimal digits, at least one. Surrogates are
refused. -/
def numberedChar? (digits : Nat) (h : 0 < digits) : Reader Char := fun text =>
  let written := text.take digits
  let number := ofDigits 16 written
  if fits : digits ≤ text.length ∧ written.all isHexDigit ∧ number.isValidChar then
    some ⟨.ofNat number, text.drop digits, by rw [List.length_drop]; omega⟩
  else none

/-- The character that a single letter or mark behind a backslash stands for. -/
def plainEscape? : Char → Option Char
  | 'b' => some '\x08'
  | 't' => some '\t'
  | 'n' => some '\n'
  | 'f' => some '\x0c'
  | 'r' => some '\r'
  | 'e' => some '\x1b'
  | '"' => some '"'
  | '\\' => some '\\'
  | _ => none

/-- The character that an escape stands for; the text begins behind the backslash. -/
def escaped? : Reader Char
  | 'x' :: digits => (numberedChar? 2 (by decide) digits).map .after
  | 'u' :: digits => (numberedChar? 4 (by decide) digits).map .after
  | 'U' :: digits => (numberedChar? 8 (by decide) digits).map .after
  | letter :: rest => (plainEscape? letter).map fun c => .first c rest
  | [] => none

/-- A basic string behind its opening mark; `read` is what has been read of it, in reverse. -/
def basic? (read : List Char) : List Char → Option (List Char × List Char)
  | [] => none
  | '"' :: rest => some (read.reverse, rest)
  | '\\' :: text =>
    match escaped? text with
    | some ⟨c, rest, _⟩ => basic? (c :: read) rest
    | none => none
  | c :: rest => if isLineChar c then basic? (c :: read) rest else none
termination_by text => text.length
decreasing_by
  · exact Nat.lt_succ_of_lt (by assumption)
  · exact Nat.lt_succ_self _

/-- A literal string behind its opening mark. -/
def literal? (read : List Char) : List Char → Option (List Char × List Char)
  | [] => none
  | '\'' :: rest => some (read.reverse, rest)
  | c :: rest => if isLineChar c then literal? (c :: read) rest else none

/-- How many marks the text begins with. -/
def leadingMarks (mark : Char) (text : List Char) : Nat := (text.takeWhile (· == mark)).length

theorem leadingMarks_pos (mark : Char) (text : List Char) :
    0 < leadingMarks mark (mark :: text) := by
  simp [leadingMarks]

/-- A run of three or more marks closes a string of several lines. Its last three marks close, and
at most two in front of them belong to the string; any further mark is left unread. -/
def closing (marks : Nat) : Nat := min marks 5

/-- Skips the line end that follows an opening tripled mark. -/
def skipFirstLineEnd : List Char → List Char
  | '\n' :: rest => rest
  | '\r' :: '\n' :: rest => rest
  | text => text

/-- Skips blanks and line ends. -/
def skipGap : List Char → List Char
  | '\r' :: '\n' :: rest => skipGap rest
  | c :: rest => if isBlank c || c == '\n' then skipGap rest else c :: rest
  | [] => []

theorem skipGap_le (text : List Char) : (skipGap text).length ≤ text.length := by
  fun_induction skipGap text with
  | case1 rest ih => exact Nat.le_succ_of_le (Nat.le_succ_of_le ih)
  | case2 c rest _ _ ih => exact Nat.le_succ_of_le ih
  | case3 => exact Nat.le_refl _
  | case4 => exact Nat.le_refl _

/-- A backslash at the end of a line, perhaps with blanks behind it, joins the string to the next
character that is no gap; the text begins behind the backslash. -/
def joined? : Reader Unit := fun text =>
  (lineEnd? (skipBlanks text)).map fun reading =>
    ⟨(), skipGap reading.rest, by
      have := skipBlanks_le text
      have := skipGap_le reading.rest
      have := reading.shorter
      omega⟩

/-- A basic string of several lines behind its opening marks. -/
def multilineBasic? (read : List Char) : List Char → Option (List Char × List Char)
  | [] => none
  | '"' :: text =>
    let marks := leadingMarks '"' ('"' :: text)
    if marks < 3 then
      multilineBasic? (List.replicate marks '"' ++ read) (('"' :: text).drop marks)
    else
      some ((List.replicate (closing marks - 3) '"' ++ read).reverse,
        ('"' :: text).drop (closing marks))
  | '\\' :: text =>
    match joined? text, escaped? text with
    | some ⟨_, rest, _⟩, _ => multilineBasic? read rest
    | none, some ⟨c, rest, _⟩ => multilineBasic? (c :: read) rest
    | none, none => none
  | '\r' :: '\n' :: rest => multilineBasic? ('\n' :: '\r' :: read) rest
  | c :: rest => if isLineChar c || c == '\n' then multilineBasic? (c :: read) rest else none
termination_by text => text.length
decreasing_by
  · have := leadingMarks_pos '"' text
    simp only [List.length_drop, List.length_cons]
    omega
  · exact Nat.lt_succ_of_lt (by assumption)
  · exact Nat.lt_succ_of_lt (by assumption)
  · exact Nat.lt_succ_of_lt (Nat.lt_succ_self _)
  · exact Nat.lt_succ_self _

/-- A literal string of several lines behind its opening marks. -/
def multilineLiteral? (read : List Char) : List Char → Option (List Char × List Char)
  | [] => none
  | '\'' :: text =>
    let marks := leadingMarks '\'' ('\'' :: text)
    if marks < 3 then
      multilineLiteral? (List.replicate marks '\'' ++ read) (('\'' :: text).drop marks)
    else
      some ((List.replicate (closing marks - 3) '\'' ++ read).reverse,
        ('\'' :: text).drop (closing marks))
  | '\r' :: '\n' :: rest => multilineLiteral? ('\n' :: '\r' :: read) rest
  | c :: rest => if isLineChar c || c == '\n' then multilineLiteral? (c :: read) rest else none
termination_by text => text.length
decreasing_by
  · have := leadingMarks_pos '\'' text
    simp only [List.length_drop, List.length_cons]
    omega
  · exact Nat.lt_succ_of_lt (Nat.lt_succ_self _)
  · exact Nat.lt_succ_self _

theorem basic?_shorter {read text found rest : List Char}
    (h : basic? read text = some (found, rest)) : rest.length < text.length := by
  fun_induction basic? read text with
  | case1 => cases h
  | case2 => cases h; exact Nat.lt_succ_self _
  | case3 read text c tail shorter _ ih => exact Nat.lt_succ_of_lt (Nat.lt_trans (ih h) shorter)
  | case4 => cases h
  | case5 read c tail _ _ _ ih => exact Nat.lt_succ_of_lt (ih h)
  | case6 => cases h

theorem literal?_shorter {read text found rest : List Char}
    (h : literal? read text = some (found, rest)) : rest.length < text.length := by
  fun_induction literal? read text with
  | case1 => cases h
  | case2 => cases h; exact Nat.lt_succ_self _
  | case3 read c tail _ _ ih => exact Nat.lt_succ_of_lt (ih h)
  | case4 => cases h

theorem multilineBasic?_shorter {read text found rest : List Char}
    (h : multilineBasic? read text = some (found, rest)) : rest.length < text.length := by
  fun_induction multilineBasic? read text with
  | case1 => cases h
  | case2 read tail marks _ ih =>
    have := ih h
    simp only [List.length_drop, List.length_cons] at this ⊢
    omega
  | case3 read tail marks many =>
    cases h
    simp only [List.length_drop, List.length_cons, closing]
    omega
  | case4 read text joint tail shorter _ ih =>
    exact Nat.lt_succ_of_lt (Nat.lt_trans (ih h) shorter)
  | case5 read text c tail shorter _ _ ih =>
    exact Nat.lt_succ_of_lt (Nat.lt_trans (ih h) shorter)
  | case6 => cases h
  | case7 read tail ih => exact Nat.lt_succ_of_lt (Nat.lt_succ_of_lt (ih h))
  | case8 read c tail _ _ _ _ ih => exact Nat.lt_succ_of_lt (ih h)
  | case9 => cases h

theorem multilineLiteral?_shorter {read text found rest : List Char}
    (h : multilineLiteral? read text = some (found, rest)) : rest.length < text.length := by
  fun_induction multilineLiteral? read text with
  | case1 => cases h
  | case2 read tail marks _ ih =>
    have := ih h
    simp only [List.length_drop, List.length_cons] at this ⊢
    omega
  | case3 read tail marks many =>
    cases h
    simp only [List.length_drop, List.length_cons, closing]
    omega
  | case4 read tail ih => exact Nat.lt_succ_of_lt (Nat.lt_succ_of_lt (ih h))
  | case5 read c tail _ _ _ ih => exact Nat.lt_succ_of_lt (ih h)
  | case6 => cases h

theorem skipFirstLineEnd_le (text : List Char) :
    (skipFirstLineEnd text).length ≤ text.length := by
  unfold skipFirstLineEnd
  split
  · exact Nat.le_succ _
  · exact Nat.le_succ_of_le (Nat.le_succ _)
  · exact Nat.le_refl _

def basicString? : Reader String := fun text =>
  (Reading.of? (basic? [] text) fun _ _ => basic?_shorter).map (·.map .ofList)

def literalString? : Reader String := fun text =>
  (Reading.of? (literal? [] text) fun _ _ => literal?_shorter).map (·.map .ofList)

def multilineBasicString? : Reader String := fun text =>
  (Reading.of? (multilineBasic? [] (skipFirstLineEnd text)) fun _ _ h =>
    Nat.lt_of_lt_of_le (multilineBasic?_shorter h) (skipFirstLineEnd_le text)).map (·.map .ofList)

def multilineLiteralString? : Reader String := fun text =>
  (Reading.of? (multilineLiteral? [] (skipFirstLineEnd text)) fun _ _ h =>
    Nat.lt_of_lt_of_le (multilineLiteral?_shorter h) (skipFirstLineEnd_le text)).map (·.map .ofList)

/-- A string on one line, with its marks. -/
def singleLine? : Reader String
  | '"' :: inner => (basicString? inner).map .after
  | '\'' :: inner => (literalString? inner).map .after
  | _ => none

/-- A string in any form, with its marks. -/
def string? : Reader String
  | '"' :: '"' :: '"' :: inner => (multilineBasicString? inner).map (·.after.after.after)
  | '\'' :: '\'' :: '\'' :: inner => (multilineLiteralString? inner).map (·.after.after.after)
  | text => singleLine? text

end EnumNames.Toml
