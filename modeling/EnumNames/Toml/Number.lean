import EnumNames.Toml.Digit

/-! TOML numbers as they are written. Underscores may stand between digits, and only there. -/
namespace EnumNames.Toml

/-- A whole number by its base, its sign and what stands in the place of its digits. -/
structure Whole where
  base : Nat
  negative : Bool
  digits : List Char
deriving DecidableEq, Repr

/-- The number, if there are digits and all of them belong to the base. -/
def Whole.number? (whole : Whole) : Option Int :=
  if whole.digits ≠ [] ∧ whole.digits.all (isDigitOf whole.base) then
    let size : Int := ofDigits whole.base whole.digits
    some (if whole.negative then -size else size)
  else none

/-- A floating-point number as it is written, before any rounding. -/
inductive Floating
  /-- The number `coefficient * 10 ^ exponent`, with a sign that counts for zero as well. -/
  | decimal (negative : Bool) (coefficient : Nat) (exponent : Int)
  | infinite (negative : Bool)
  | nan
deriving DecidableEq, Repr

/-- A sign in front of a word, true for a minus. -/
def splitSign : List Char → Bool × List Char
  | '-' :: rest => (true, rest)
  | '+' :: rest => (false, rest)
  | word => (false, word)

/-- Whether each underscore has a digit in front of it and behind it; `before` says whether a digit
stands in front of the text. -/
def separatedAfter (isDigit : Char → Bool) (before : Bool) : List Char → Bool
  | [] => true
  | '_' :: rest => before && rest.head?.any isDigit && separatedAfter isDigit false rest
  | c :: rest => separatedAfter isDigit (isDigit c) rest

/-- Whether each underscore stands between two digits. -/
def separated (isDigit : Char → Bool) (word : List Char) : Bool := separatedAfter isDigit false word

def withoutUnderscores (word : List Char) : List Char := word.filter (· != '_')

/-- Whether more follows a zero in front. -/
def leadsWithZero : List Char → Bool
  | '0' :: _ :: _ => true
  | _ => false

/-- Digits behind the mark of their base. There may be none, and then there is no number either. -/
def marked? (base : Nat) (word : List Char) : Option Whole :=
  if separated (isDigitOf base) word ∧ (withoutUnderscores word).all (isDigitOf base) then
    some ⟨base, false, withoutUnderscores word⟩
  else none

/-- What cannot stand in a whole number: the marks of a floating-point number, and the space. -/
def endsWhole (c : Char) : Bool := c == '.' || c == 'e' || c == 'E' || c == ' '

/-- Decimal digits, perhaps with a sign. Between underscores the letters of base sixteen pass as
digits, and behind the last one only the first character is looked at. -/
def decimal? (word : List Char) : Option Whole :=
  let (negative, body) := splitSign word
  if body ≠ [] ∧ !leadsWithZero body ∧ (body.dropWhile Char.isDigit).head?.all (· == '_') ∧
      separated isHexDigit body ∧ !body.any endsWhole then
    some ⟨10, negative, withoutUnderscores body⟩
  else none

def integer? : List Char → Option Whole
  | '0' :: 'x' :: digits => marked? 16 digits
  | '0' :: 'o' :: digits => marked? 8 digits
  | '0' :: 'b' :: digits => marked? 2 digits
  | word => decimal? word

/-- Decimal digits, at least one, with the underscores left out. -/
def figures? (word : List Char) : Option (List Char) :=
  let digits := withoutUnderscores word
  if digits ≠ [] ∧ digits.all Char.isDigit then some digits else none

def isExponentMark (c : Char) : Bool := c == 'e' || c == 'E'

/-- The power of ten behind the mark `e`, where zeros may lead. -/
def exponent? (word : List Char) : Option Int :=
  let (negative, rest) := splitSign word
  (figures? rest).map fun digits =>
    if negative then -(ofDigits 10 digits : Int) else ofDigits 10 digits

/-- Digits, then a fraction or a power of ten or both. -/
def unsignedFloating? (negative : Bool) (word : List Char) : Option Floating := do
  let mantissa := word.takeWhile (!isExponentMark ·)
  let power ← match word.dropWhile (!isExponentMark ·) with
    | [] => some 0
    | _ :: rest => exponent? rest
  let front := mantissa.takeWhile (· != '.')
  let whole ← if leadsWithZero front then none else figures? front
  match mantissa.dropWhile (· != '.') with
  | [] =>
    if mantissa.length = word.length then none
    else some (.decimal negative (ofDigits 10 whole) power)
  | _ :: rest =>
    let fraction ← figures? rest
    some (.decimal negative (ofDigits 10 (whole ++ fraction)) (power - fraction.length))

def floating? (word : List Char) : Option Floating :=
  let (negative, body) := splitSign word
  match body with
  | ['i', 'n', 'f'] => some (.infinite negative)
  | ['n', 'a', 'n'] => some .nan
  | _ => if separated Char.isDigit body then unsignedFloating? negative body else none

end EnumNames.Toml
