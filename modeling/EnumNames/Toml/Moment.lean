/-! The form of TOML dates and times: a date, a time, or a date and a time with or without an
offset from universal time. -/
namespace EnumNames.Toml

/-- Two digits as a number. -/
def twoDigits? : List Char → Option (Nat × List Char)
  | a :: b :: rest =>
    if a.isDigit ∧ b.isDigit then
      some (10 * (a.toNat - '0'.toNat) + (b.toNat - '0'.toNat), rest)
    else none
  | _ => none

/-- Two digits that do not exceed a greatest number. -/
def upTo? (greatest : Nat) (word : List Char) : Option (List Char) := do
  let (number, rest) ← twoDigits? word
  if number ≤ greatest then some rest else none

def isLeapYear (year : Nat) : Bool := year % 4 == 0 && (year % 100 != 0 || year % 400 == 0)

/-- How many days a month has, none for a number that is no month. -/
def daysOf (year month : Nat) : Nat :=
  match month with
  | 2 => if isLeapYear year then 29 else 28
  | 4 | 6 | 9 | 11 => 30
  | 1 | 3 | 5 | 7 | 8 | 10 | 12 => 31
  | _ => 0

def expect? (c : Char) : List Char → Option (List Char)
  | d :: rest => if d = c then some rest else none
  | [] => none

/-- A day of the calendar. -/
def date? (word : List Char) : Option (List Char) := do
  let (century, word) ← twoDigits? word
  let (decade, word) ← twoDigits? word
  let word ← expect? '-' word
  let (month, word) ← twoDigits? word
  let word ← expect? '-' word
  let (day, word) ← twoDigits? word
  if 1 ≤ day ∧ day ≤ daysOf (100 * century + decade) month then some word else none

/-- A fraction of a second, if there is one. -/
def skipFraction? : List Char → Option (List Char)
  | '.' :: c :: rest => if c.isDigit then some (rest.dropWhile Char.isDigit) else none
  | ['.'] => none
  | word => some word

/-- Hours and minutes; seconds may follow, and the last second of a minute may be one more. -/
def time? (word : List Char) : Option (List Char) := do
  let word ← upTo? 23 word
  let word ← expect? ':' word
  let word ← upTo? 59 word
  match word with
  | ':' :: word => do
    let word ← upTo? 60 word
    skipFraction? word
  | word => some word

/-- An offset, which the word must end with. -/
def isOffset : List Char → Bool
  | ['Z'] | ['z'] => true
  | sign :: word =>
    (sign == '+' || sign == '-') &&
      (do
        let word ← upTo? 23 word
        let word ← expect? ':' word
        upTo? 59 word) == some []
  | [] => false

/-- Whether a word is a time alone. -/
def isTime (word : List Char) : Bool := time? word == some []

/-- Whether a word is a date alone. -/
def isDate (word : List Char) : Bool := date? word == some []

/-- Whether a word is a date and a time with a mark or a blank between them. -/
def isDateTime (word : List Char) : Bool :=
  match date? word with
  | some (mark :: word) =>
    (mark == 'T' || mark == 't' || mark == ' ') &&
      match time? word with
      | some rest => rest.isEmpty || isOffset rest
      | none => false
  | _ => false

end EnumNames.Toml
