/-! Constants as they are declared, before their printed names are settled. -/
namespace EnumNames

/-- The value of a declared constant. -/
inductive ConstantValue
  | signed (value : Int64)
  | unsigned (value : UInt64)
  /-- No integer; `kind` says what it is. -/
  | nonInteger (kind : String)
deriving DecidableEq, Repr

namespace ConstantValue

/-- The integer, if it is one. -/
def number? : ConstantValue → Option Int
  | .signed value => some value.toInt
  | .unsigned value => some value.toNat
  | .nonInteger _ => none

end ConstantValue

/-- A declared constant; `comment` is the comment on its line. -/
structure Declaration where
  name : String
  value : ConstantValue
  comment : Option String
deriving DecidableEq, Repr

namespace Declaration

/-- Whether the constant has the name `_`, which declares nothing. -/
def isBlank (declaration : Declaration) : Bool := declaration.name == "_"

/-- The name and the integer of each constant that has both, in order. -/
def numbers (declarations : List Declaration) : List (String × Int) :=
  declarations.filterMap fun declaration =>
    if declaration.isBlank then none else declaration.value.number?.map (declaration.name, ·)

end Declaration
end EnumNames
