import EnumNames.Decimal.Binary64

/-! The shortest decimal number that is rounded to a given binary number, and of the shortest ones
the nearest. It is looked for on finer and finer grids of powers of ten: on each grid only the two
neighbours of the binary number can be the nearest. -/
namespace EnumNames.Decimal

namespace Binary64

/-- The number in quarters of its last place. -/
def quarters (value : Binary64) : Nat := 4 * value.significand

/-- The least number of quarters that is still rounded to the value, if the end counts. Below a
power of two the numbers lie twice as close. -/
def lower (value : Binary64) : Nat :=
  if value.significand = leastFull ∧ leastExponent < value.exponent then value.quarters - 1
  else value.quarters - 2

/-- The greatest number of quarters that is still rounded to the value, if the end counts. -/
def upper (value : Binary64) : Nat := value.quarters + 2

/-- Whether the ends of the interval are rounded to the value, too. -/
def isEven (value : Binary64) : Bool := value.significand % 2 == 0

/-- The size of a quarter on the grid of multiples of `10 ^ place`, as a fraction. -/
def quarterOn (value : Binary64) (place : Int) : Nat × Nat :=
  let exponent := value.exponent - 2
  let (n, d) := if exponent < 0 then (1, Nat.pow 2 exponent.natAbs) else (Nat.pow 2 exponent.natAbs, 1)
  if place < 0 then (n * Nat.pow 10 place.natAbs, d) else (n, d * Nat.pow 10 place.natAbs)

/-- Whether a point of the grid is rounded to the value. -/
def hits (value : Binary64) (quarter : Nat × Nat) (point : Nat) : Bool :=
  let low := value.lower * quarter.1
  let high := value.upper * quarter.1
  let here := point * quarter.2
  (low < here && here < high) || (value.isEven && (low == here || here == high))

/-- The nearest point of the grid of multiples of `10 ^ place` that is rounded to the value; of two
that are equally near the greater. -/
def nearestOn? (value : Binary64) (place : Int) : Option Nat :=
  let quarter := value.quarterOn place
  let exact := value.quarters * quarter.1
  let below := exact / quarter.2
  let belowHits := value.hits quarter below
  let aboveHits := value.hits quarter (below + 1)
  if belowHits && (!aboveHits || 2 * (exact % quarter.2) < quarter.2) then some below
  else if aboveHits then some (below + 1)
  else none

/-- The place of the first digit, counted from the point: 1 for the numbers from 1 to 10, 0 for
those from a tenth to 1. -/
def firstPlace (value : Binary64) : Int :=
  let (n, d) := value.quarterOn 0
  let exact := value.quarters * n
  if d ≤ exact then (toString (exact / d)).length
  else
    let zeros := (List.range 330).find? fun zeros => d ≤ exact * Nat.pow 10 (zeros + 1)
    .negOfNat (zeros.getD 330)

/-- The digits of the shortest number as a whole number, and the place of the last of them. The
first grid has no point but the power of ten above the value. -/
def shortest (value : Binary64) : Nat × Int :=
  let first := value.firstPlace
  let found := (List.range 18).findSome? fun (digits : Nat) =>
    let place := first - digits
    (value.nearestOn? place).map fun point => (point, place)
  found.getD (value.significand, 0)

end Binary64

/-- The number `digits * 10 ^ place` without a power of ten, with a point and a digit behind it. -/
def positional (digits : Nat) (place : Int) : String :=
  let written := (toString digits).toList
  let zeros (count : Nat) : List Char := List.replicate count '0'
  if 0 ≤ place then .ofList (written ++ zeros place.natAbs ++ ['.', '0'])
  else
    let behind := place.natAbs
    let padded := zeros (behind + 1 - written.length) ++ written
    .ofList (padded.take (padded.length - behind) ++ '.' :: padded.drop (padded.length - behind))

end EnumNames.Decimal
