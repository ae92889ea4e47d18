/-! Rounding decimal numbers to binary floating-point numbers of 64 bits. -/
namespace EnumNames.Decimal

/-- The positive number `significand * 2 ^ exponent`. The significand is below 2^53, and it is at
least 2^52 unless the exponent is the least one, -1074. -/
structure Binary64 where
  significand : Nat
  exponent : Int
deriving DecidableEq, Repr

namespace Binary64

/-- The least significand of 53 bits, 2^52. -/
def leastFull : Nat := 0x10000000000000

def leastExponent : Int := -1074

def greatestExponent : Int := 971

/-- The fraction `numerator / denominator` to the nearest whole number, a half to the even one. -/
def roundEven (numerator denominator : Nat) : Nat :=
  let whole := numerator / denominator
  let rest := 2 * (numerator % denominator)
  if rest < denominator then whole
  else if denominator < rest then whole + 1
  else whole + whole % 2

/-- The fraction `numerator / denominator` in units of `2 ^ exponent`, again as a fraction. -/
def inUnits (numerator denominator : Nat) (exponent : Int) : Nat × Nat :=
  if exponent < 0 then (numerator * Nat.pow 2 exponent.natAbs, denominator)
  else (numerator, denominator * Nat.pow 2 exponent.natAbs)

/-- The exponent that gives a positive fraction a significand of 53 bits, or the least exponent. -/
def exponentFor (numerator denominator : Nat) : Int :=
  let estimate : Int := (Nat.log2 numerator : Int) - Nat.log2 denominator
  let (n, d) := inUnits numerator denominator estimate
  let floor := if n < d then estimate - 1 else estimate
  max leastExponent (floor - 52)

/-- What a decimal number is rounded to. -/
inductive Rounded
  | zero
  | finite (value : Binary64)
  | tooLarge
deriving DecidableEq, Repr

/-- The nearest binary number to a positive fraction. -/
def ofFraction (numerator denominator : Nat) : Rounded :=
  let exponent := exponentFor numerator denominator
  let (n, d) := inUnits numerator denominator exponent
  let significand := roundEven n d
  let value : Binary64 :=
    if significand = 2 * leastFull then ⟨leastFull, exponent + 1⟩ else ⟨significand, exponent⟩
  if value.significand = 0 then .zero
  else if greatestExponent < value.exponent then .tooLarge
  else .finite value

/-- The nearest binary number to `coefficient * 10 ^ exponent`. A number of 311 digits or more before
the point is too large, and one that begins 330 places behind the point is nothing. -/
def ofDecimal (coefficient : Nat) (exponent : Int) : Rounded :=
  let size : Int := (toString coefficient).length + exponent
  if coefficient = 0 ∨ size < -330 then .zero
  else if 310 < size then .tooLarge
  else if exponent < 0 then ofFraction coefficient (Nat.pow 10 exponent.natAbs)
  else ofFraction (coefficient * Nat.pow 10 exponent.natAbs) 1

end Binary64
end EnumNames.Decimal
