import EnumNames.Toml.Moment
import EnumNames.Toml.Number

/-! The grammar of TOML, second part: how numbers, dates and times are written. -/
namespace EnumNames.Toml

/-! ### Numbers -/

/-- Digits, at least one, as they are written with single underscores between them. -/
inductive Figures (isDigit : Char → Bool) : List Char → List Char → Prop
  | last {d : Char} (digit : isDigit d) : Figures isDigit [d] [d]
  | next {d : Char} {written digits : List Char} (digit : isDigit d)
      (others : Figures isDigit written digits) : Figures isDigit (d :: written) (d :: digits)
  | underscore {d : Char} {written digits : List Char} (digit : isDigit d)
      (others : Figures isDigit written digits) :
    Figures isDigit (d :: '_' :: written) (d :: digits)

/-- A sign in front of a number, which is true for a minus and may be missing. -/
inductive Sign : List Char → Bool → Prop
  | none : Sign [] false
  | plus : Sign ['+'] false
  | minus : Sign ['-'] true

/-- Digits of a number in base ten. No zero stands in front of others. -/
structure Decimals (written digits : List Char) : Prop where
  figures : Figures Char.isDigit written digits
  noLeadingZero : digits = ['0'] ∨ digits.head? ≠ some '0'

/-- A whole number in base ten, or behind the mark of another base. -/
inductive IsInteger : List Char → Whole → Prop
  | decimal {sign written digits : List Char} {negative : Bool} (signed : Sign sign negative)
      (decimals : Decimals written digits) : IsInteger (sign ++ written) ⟨10, negative, digits⟩
  | marked {mark : Char} {base : Nat} {written digits : List Char}
      (based : (mark, base) ∈ [('x', 16), ('o', 8), ('b', 2)])
      (figures : Figures (isDigitOf base) written digits) :
    IsInteger ('0' :: mark :: written) ⟨base, false, digits⟩

/-- The digits behind a point, if there is one. -/
inductive Fraction : List Char → List Char → Prop
  | none : Fraction [] []
  | some {written digits : List Char} (figures : Figures Char.isDigit written digits) :
    Fraction ('.' :: written) digits

/-- A power of ten, if there is one. Zeros may lead in it. -/
inductive Power : List Char → Int → Prop
  | none : Power [] 0
  | some {mark : Char} {sign written digits : List Char} {negative : Bool}
      (marked : mark = 'e' ∨ mark = 'E') (signed : Sign sign negative)
      (figures : Figures Char.isDigit written digits) :
    Power (mark :: (sign ++ written))
      (if negative then -(ofDigits 10 digits : Int) else ofDigits 10 digits)

/-- A number with a fraction or a power of ten, or a special one. -/
inductive IsFloating : List Char → Floating → Prop
  | decimal {sign whole digits behind fraction power : List Char} {negative : Bool} {exponent : Int}
      (signed : Sign sign negative) (decimals : Decimals whole digits)
      (fractional : Fraction behind fraction) (powered : Power power exponent)
      (some : behind ≠ [] ∨ power ≠ []) :
    IsFloating (sign ++ (whole ++ (behind ++ power)))
      (.decimal negative (ofDigits 10 (digits ++ fraction)) (exponent - fraction.length))
  | infinite {sign : List Char} {negative : Bool} (signed : Sign sign negative) :
    IsFloating (sign ++ ['i', 'n', 'f']) (.infinite negative)
  | nan {sign : List Char} {negative : Bool} (signed : Sign sign negative) :
    IsFloating (sign ++ ['n', 'a', 'n']) .nan

/-! ### Dates and times -/

/-- Two digits that make a number. -/
inductive TwoDigits : List Char → Nat → Prop
  | mk {a b : Char} (first : a.isDigit) (second : b.isDigit) :
    TwoDigits [a, b] (10 * (a.toNat - '0'.toNat) + (b.toNat - '0'.toNat))

/-- A day that the calendar has. -/
inductive IsDate : List Char → Prop
  | mk {front back month day : List Char} {century decade m d : Nat}
      (hundreds : TwoDigits front century)
      (years : TwoDigits back decade) (months : TwoDigits month m) (days : TwoDigits day d)
      (real : 1 ≤ d ∧ d ≤ daysOf (100 * century + decade) m) :
    IsDate (front ++ (back ++ ('-' :: (month ++ ('-' :: day)))))

/-- Hours and minutes. -/
inductive IsClock : List Char → Prop
  | mk {hour minute : List Char} {h m : Nat} (hours : TwoDigits hour h) (upTo : h ≤ 23)
      (minutes : TwoDigits minute m) (below : m ≤ 59) : IsClock (hour ++ (':' :: minute))

/-- The seconds of a time, if there are any, with a fraction if there is one. The last second of a
minute may be one more. -/
inductive IsSeconds : List Char → Prop
  | none : IsSeconds []
  | whole {second : List Char} {s : Nat} (seconds : TwoDigits second s) (upTo : s ≤ 60) :
    IsSeconds (':' :: second)
  | part {second digits : List Char} {s : Nat} (seconds : TwoDigits second s) (upTo : s ≤ 60)
      (some : digits ≠ []) (inside : digits.all Char.isDigit) :
    IsSeconds (':' :: (second ++ ('.' :: digits)))

/-- A time of the day. -/
inductive IsHour : List Char → Prop
  | mk {clock seconds : List Char} (clocked : IsClock clock) (behind : IsSeconds seconds) :
    IsHour (clock ++ seconds)

/-- The distance of a time from universal time, if it is given. -/
inductive IsZone : List Char → Prop
  | none : IsZone []
  | universal {mark : Char} (marked : mark = 'Z' ∨ mark = 'z') : IsZone [mark]
  | apart {sign : Char} {clock : List Char} (signed : sign = '+' ∨ sign = '-')
      (clocked : IsClock clock) : IsZone (sign :: clock)

/-- A date, a time, or both with a mark or a blank between them. -/
inductive IsMoment : List Char → Prop
  | date {date : List Char} (dated : IsDate date) : IsMoment date
  | time {time : List Char} (timed : IsHour time) : IsMoment time
  | both {date time zone : List Char} {mark : Char} (dated : IsDate date)
      (marked : mark = 'T' ∨ mark = 't' ∨ mark = ' ') (timed : IsHour time) (zoned : IsZone zone) :
    IsMoment (date ++ (mark :: (time ++ zone)))

end EnumNames.Toml
