import EnumNames.Go.Syntax
import EnumNames.Proofs.Go.Literal

/-! The lexical grammar of Go, for the part that name tables are written in: words, decimal
integers, interpreted string literals, operators, comments up to the end of a line, and the
semicolons that line ends stand for. Other literals and comments are refused. A byte order mark is
a character like any other, although a compiler may refuse one behind the beginning of a file. -/
namespace EnumNames.Go

/-- The letters and the digits outside ASCII. Go takes them from Unicode, whose tables grow from
one version to the next, so they are a parameter of reading. -/
structure Alphabet where
  isLetter : Char → Bool
  isDigit : Char → Bool

namespace Alphabet

def startsName (alphabet : Alphabet) (c : Char) : Bool :=
  c.isAlpha || c == '_' || (0x80 ≤ c.toNat && alphabet.isLetter c)

def continuesName (alphabet : Alphabet) (c : Char) : Bool :=
  alphabet.startsName c || c.isDigit || (0x80 ≤ c.toNat && alphabet.isDigit c)

end Alphabet

inductive Keyword
  | case
  | const
  | default
  | func
  | if
  | import
  | map
  | package
  | return
  | struct
  | switch
  | var
  /-- A keyword that name tables do without. -/
  | other
deriving DecidableEq, Repr

/-- The 25 keywords of the language. -/
def keywords : List (String × Keyword) :=
  [("break", .other), ("case", .case), ("chan", .other), ("const", .const), ("continue", .other),
    ("default", .default), ("defer", .other), ("else", .other), ("fallthrough", .other),
    ("for", .other), ("func", .func), ("go", .other), ("goto", .other), ("if", .if),
    ("import", .import), ("interface", .other), ("map", .map), ("package", .package),
    ("range", .other), ("return", .return), ("select", .other), ("struct", .struct),
    ("switch", .switch), ("type", .other), ("var", .var)]

inductive Sign
  | openParen
  | closeParen
  | openBracket
  | closeBracket
  | openBrace
  | closeBrace
  | comma
  | colon
  | semicolon
  | dot
  | ellipsis
  | assign
  | define
  | decrease
  | operator (operator : Operator)
  /-- A sign that name tables do without. -/
  | other
deriving DecidableEq, Repr

/-- All signs of the language, longer ones in front of shorter ones, so that the first that fits
is the longest that fits. -/
def signs : List (String × Sign) :=
  [("<<=", .other), (">>=", .other), ("&^=", .other), ("...", .ellipsis),
    ("<<", .other), (">>", .other), ("&^", .other), ("+=", .other), ("-=", .decrease),
    ("*=", .other), ("/=", .other), ("%=", .other), ("&=", .other), ("|=", .other), ("^=", .other),
    ("&&", .operator .and), ("||", .operator .or), ("<-", .other), ("++", .other), ("--", .other),
    ("==", .operator .equal), ("!=", .other), ("<=", .operator .atMost),
    (">=", .operator .atLeast), (":=", .define),
    ("+", .operator .add), ("-", .operator .sub), ("*", .other), ("/", .other), ("%", .other),
    ("&", .other), ("|", .other), ("^", .other), ("~", .other), ("<", .operator .less),
    (">", .other), ("=", .assign), ("!", .other), ("(", .openParen), (")", .closeParen),
    ("[", .openBracket), ("]", .closeBracket), ("\x7b", .openBrace), ("\x7d", .closeBrace),
    (",", .comma), (":", .colon), (";", .semicolon), (".", .dot)]

inductive Token
  | name (word : String)
  | keyword (keyword : Keyword)
  | number (value : Nat)
  /-- A string literal, as the text it stands for. -/
  | literal (text : String)
  | sign (sign : Sign)
  | lineEnd
deriving DecidableEq, Repr

/-- The longest sign that a text begins with, and the text behind it. -/
def sign? (text : List Char) : Option (Sign × List Char) :=
  signs.findSome? fun (characters, sign) =>
    if characters.toList.isPrefixOf text then some (sign, text.drop characters.toList.length) else none

/-- A word, which may be a keyword. -/
def word (letters : List Char) : Token :=
  match keywords.lookup (.ofList letters) with
  | some keyword => .keyword keyword
  | none => .name (.ofList letters)

/-- A decimal integer. A zero in front of other digits would change the base, and letters or a
point behind them the kind of number. -/
def number? (alphabet : Alphabet) (text : List Char) : Option (Token × List Char) :=
  let digits := text.takeWhile Char.isDigit
  let rest := text.dropWhile Char.isDigit
  if (digits.head? == some '0' && digits.length != 1) ||
      rest.head?.any (fun c => alphabet.continuesName c || c == '.') then none
  else some (.number (Nat.ofDigitChars 10 digits 0), rest)

/-- The token at the beginning of a text, and the text behind it. -/
def token? (alphabet : Alphabet) : List Char → Option (Token × List Char)
  | [] => none
  | '\n' :: rest => some (.lineEnd, rest)
  | '"' :: rest => (literal? rest).map fun (text, rest) => (.literal (.ofList text), rest)
  | c :: rest =>
    if alphabet.startsName c then
      some (word (c :: rest.takeWhile alphabet.continuesName),
        rest.dropWhile alphabet.continuesName)
    else if c.isDigit then number? alphabet (c :: rest)
    else (sign? (c :: rest)).map fun (sign, rest) => (.sign sign, rest)

def isBlank (c : Char) : Bool := c == ' ' || c == '\t' || c == '\r'

/-- The tokens of a text, line ends among them. Blanks and comments only part them. A token takes
up characters; this is tested where the reading goes on, so that it ends. -/
def lexemes? (alphabet : Alphabet) (text : List Char) : Option (List Token) :=
  match text with
  | [] => some []
  | '/' :: '*' :: _ => none
  | '/' :: '/' :: comment => lexemes? alphabet (comment.dropWhile (· != '\n'))
  | c :: others =>
    if isBlank c then lexemes? alphabet others
    else do
      let (token, rest) ← token? alphabet (c :: others)
      if rest.length ≤ others.length then do
        let tokens ← lexemes? alphabet rest
        return token :: tokens
      else none
termination_by text.length
decreasing_by
  · have shorter := (List.dropWhile_sublist (· != '\n') (l := comment)).length_le
    simp only [List.length_cons]
    omega
  · exact Nat.lt_succ_self _
  · exact Nat.lt_succ_of_le ‹_›

/-- Whether a statement may end with a token. -/
def Token.ends : Token → Bool
  | .name _ | .number _ | .literal _ | .keyword .return => true
  | .sign mark => mark ∈ [Sign.closeParen, .closeBracket, .closeBrace]
  | .keyword _ | .lineEnd => false

/-- Puts a semicolon for each line end behind a token that may end a statement, and drops the
other line ends. The end of the text counts as one. -/
def separate : (ended : Bool) → List Token → List Token
  | ended, [] => if ended then [.sign .semicolon] else []
  | ended, .lineEnd :: tokens =>
    if ended then .sign .semicolon :: separate false tokens else separate false tokens
  | _, token :: tokens => token :: separate token.ends tokens

/-- The tokens of a text with all its semicolons. -/
def tokens? (alphabet : Alphabet) (text : String) : Option (List Token) :=
  (lexemes? alphabet text.toList).map (separate false)

end EnumNames.Go
