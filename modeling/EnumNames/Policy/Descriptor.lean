import EnumNames.Descriptor
import EnumNames.Policy.Basic

/-! From declared constants to a name table. A constant that is no integer is reported before
anything else is looked at. -/
namespace EnumNames.Descriptor

/-- Names the declared constants of a type by a policy and compiles them. -/
def ofDeclarations (policy : Policy) (typeName : String) (declarations : List Declaration) :
    Traced Descriptor := do
  let records ← Traced.ofExcept (policy.collect declarations)
  compile typeName records

end EnumNames.Descriptor
