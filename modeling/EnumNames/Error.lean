/-! What can keep a type from getting a name table, and the wording of each cause. -/
namespace EnumNames

inductive Error
  /-- The type has no constants. -/
  | emptyInput (typeName : String)
  /-- A constant is no integer; `kind` says what it is. -/
  | nonInteger (name kind : String)
  /-- The constant `name` is the first to differ in signedness from the one before all others. -/
  | mixedSignedness (typeName name : String)
  /-- The names together are longer than a 32-bit offset can reach. -/
  | indexOverflow (length : Nat)
deriving DecidableEq, Repr

def Error.message : Error → String
  | .emptyInput typeName => "no values defined for type " ++ typeName
  | .nonInteger name kind => "can't handle non-integer constant " ++ name ++ " of kind " ++ kind
  | .mixedSignedness typeName name =>
    "constant " ++ name ++ " of type " ++ typeName ++ " differs in signedness from the rest of the type"
  | .indexOverflow length =>
    "name blob of " ++ toString length ++ " bytes exceeds the 32-bit offset range"

end EnumNames
