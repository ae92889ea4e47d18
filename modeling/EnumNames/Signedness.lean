/-! The two ways of reading a 64-bit word as an integer. Order, printing and range tests all
go through `read`, so they cannot disagree. -/
namespace EnumNames

/-- Whether the words of a type stand for two's complement or for plain binary numbers. -/
inductive Signedness
  | signed
  | unsigned
deriving DecidableEq, Repr

namespace Signedness

/-- The integer that a word stands for. -/
def read : Signedness → UInt64 → Int
  | .signed, word => word.toInt64.toInt
  | .unsigned, word => word.toNat

/-- Words in the order of the integers they stand for. -/
def compare (signedness : Signedness) (left right : UInt64) : Ordering :=
  Ord.compare (signedness.read left) (signedness.read right)

/-- The integer that a word stands for, in decimal digits. -/
def decimal (signedness : Signedness) (word : UInt64) : String :=
  toString (signedness.read word)

theorem read_unsigned (word : UInt64) : Signedness.unsigned.read word = word.toNat := rfl

end Signedness
end EnumNames
