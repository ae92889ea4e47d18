import EnumNames.Signedness

/-! A named constant of an enumerated type. -/
namespace EnumNames

/-- A printed name, the word that carries the value, and how to read the word. -/
structure Record where
  name : String
  value : UInt64
  signedness : Signedness
deriving DecidableEq, Repr

namespace Record

/-- The value as an integer. -/
def number (record : Record) : Int := record.signedness.read record.value

/-- Compares by value; the record on the left says how both words are read. -/
def compareValue (left right : Record) : Ordering :=
  left.signedness.compare left.value right.value

end Record
end EnumNames
