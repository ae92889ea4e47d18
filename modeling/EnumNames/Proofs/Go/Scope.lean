import EnumNames.Go.Syntax
import EnumNames.Proofs.Go.Integer

/-! What names stand for, and what operators do to integers. The compiler and a run of a program
both look names up; of constants and variables the one knows types, the other values. -/
namespace EnumNames.Go

inductive Entity (α : Type)
  | type (type : IntType)
  /-- The type of texts. -/
  | string
  /-- The function that counts elements. -/
  | len
  | package
  | data (data : α)

abbrev Scope (α : Type) := String → Option (Entity α)

variable {α : Type}

namespace Scope

/-- Gives a name a meaning in place of any that it has. -/
def declare (scope : Scope α) (name : String) (entity : Entity α) : Scope α := fun other =>
  if other = name then some entity else scope other

@[simp] theorem declare_self (scope : Scope α) (name : String) (entity : Entity α) :
    scope.declare name entity name = some entity := if_pos rfl

theorem declare_of_ne {scope : Scope α} {name other : String} {entity : Entity α}
    (different : other ≠ name) : scope.declare name entity other = scope other :=
  if_neg different

theorem declare_declare (scope : Scope α) (name : String) (first second : Entity α) :
    (scope.declare name first).declare name second = scope.declare name second := by
  funext other
  simp only [declare]
  split <;> rfl

/-- Gives names meanings one after the other. -/
def declareAll (scope : Scope α) (definitions : List (String × Entity α)) : Scope α :=
  definitions.foldl (fun scope definition => scope.declare definition.1 definition.2) scope

theorem declareAll_of_notMem {scope : Scope α} {definitions : List (String × Entity α)}
    {name : String} (other : name ∉ definitions.map Prod.fst) :
    scope.declareAll definitions name = scope name := by
  induction definitions generalizing scope with
  | nil => rfl
  | cons definition definitions ih =>
    obtain ⟨different, other⟩ := List.ne_and_not_mem_of_not_mem_cons other
    exact (ih other).trans (declare_of_ne different)

theorem declareAll_of_mem {scope : Scope α} {definitions : List (String × Entity α)}
    {name : String} {entity : Entity α} (nodup : (definitions.map Prod.fst).Nodup)
    (member : (name, entity) ∈ definitions) : scope.declareAll definitions name = some entity := by
  induction definitions generalizing scope with
  | nil => cases member
  | cons definition definitions ih =>
    obtain ⟨alone, nodup⟩ := List.nodup_cons.mp nodup
    rcases List.mem_cons.mp member with rfl | later
    · exact (declareAll_of_notMem alone).trans (declare_self ..)
    · exact ih nodup later

end Scope

namespace IntType

/-- The type of lengths, which has 64 bits. -/
def int : IntType := ⟨"int", false, .signed, 64⟩

def int64 : IntType := ⟨"int64", false, .signed, 64⟩

def uint64 : IntType := ⟨"uint64", false, .unsigned, 64⟩

/-- The unsigned type of a width. -/
def element (bits : Nat) : IntType := ⟨"uint" ++ toString bits, false, .unsigned, bits⟩

/-- A type that a package declares. -/
def declared (name : String) (signedness : Signedness) (bits : Nat) : IntType :=
  ⟨name, true, signedness, bits⟩

end IntType

/-- What name tables use that they do not declare. -/
def ambient : List (String × Entity α) :=
  [("strconv", .package), ("string", .string), ("len", .len), ("int64", .type .int64),
    ("uint64", .type .uint64), ("uint8", .type (.element 8)), ("uint16", .type (.element 16)),
    ("uint32", .type (.element 32))]

/-- The scope of a file that imports `strconv`, in a package that declares a type. The name of
the type hides what else has this name. -/
def fileScope (type : IntType) : Scope α := fun name =>
  ((type.name, .type type) :: ambient).lookup name

/-- What an operator computes from two integers. -/
def Operator.arithmetic? : Operator → Option (Int → Int → Int)
  | .add => some (· + ·)
  | .sub => some (· - ·)
  | _ => none

/-- How an operator compares two integers. -/
def Operator.comparison? : Operator → Option (Int → Int → Bool)
  | .equal => some (· == ·)
  | .less => some (· < ·)
  | .atMost => some (· ≤ ·)
  | .atLeast => some (· ≥ ·)
  | _ => none

end EnumNames.Go
