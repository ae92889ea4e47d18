import EnumNames.Declaration
import EnumNames.Error
import EnumNames.Record
import EnumNames.Text.Blank

/-! How declared constants get their printed names. -/
namespace EnumNames

/-- A beginning to cut off each name, and whether a comment takes the place of the name. -/
structure Policy where
  trimPrefix : String
  lineComment : Bool
deriving DecidableEq, Repr

namespace Policy

/-- Names are printed as declared. -/
def plain : Policy := ⟨"", false⟩

/-- The name without the beginning `start`, where it begins so. -/
def withoutStart (start name : String) : String :=
  if start.toList.isPrefixOf name.toList then .ofList (name.toList.drop start.length) else name

/-- The comment, trimmed, where it counts and there is one, otherwise the name, cut. -/
def printedName (policy : Policy) (declaration : Declaration) : String :=
  match policy.lineComment, declaration.comment with
  | true, some comment => Text.trim comment
  | _, _ => withoutStart policy.trimPrefix declaration.name

/-- The record of a declared constant. An error names the constant as declared. -/
def record (policy : Policy) (declaration : Declaration) : Except Error Record :=
  match declaration.value with
  | .signed value => .ok ⟨policy.printedName declaration, value.toUInt64, .signed⟩
  | .unsigned value => .ok ⟨policy.printedName declaration, value, .unsigned⟩
  | .nonInteger kind => .error (.nonInteger declaration.name kind)

/-- The records of the constants with a name, in order. -/
def collect (policy : Policy) (declarations : List Declaration) : Except Error (List Record) :=
  (declarations.filter (!·.isBlank)).mapM policy.record

end Policy
end EnumNames
