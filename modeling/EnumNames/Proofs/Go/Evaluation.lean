import EnumNames.Proofs.Go.Scope
import Mathlib

/-! What a Go program does, for the declarations that name tables are written in. -/
namespace EnumNames.Go

/-- What becomes of an integer or of a text is only known of these values. -/
inductive Value
  /-- An integer, without a type if it comes from a literal. -/
  | int (type : Option IntType) (value : Int)
  /-- A text, in UTF-8 or any part of it. -/
  | text (bytes : ByteArray)
  | bool (truth : Bool)
  | array (element : IntType) (elements : List Nat)
  | map (key : IntType) (entries : List (Int × ByteArray))
deriving DecidableEq

inductive Fault
  /-- A place outside of an array, or bounds outside of a text. -/
  | panic
  /-- Something that no compiler accepts. -/
  | rejected
deriving DecidableEq, Repr

namespace Value

/-- The common type of two integers. -/
def commonType (left right : Option IntType) : Except Fault (Option IntType) :=
  match left, right with
  | some left, some right => if left = right then .ok (some left) else .error .rejected
  | some type, none | none, some type => .ok (some type)
  | none, none => .ok none

/-- What an operator makes of two values. Results wrap around in their type. -/
def join (joining : Operator) (left right : Value) : Except Fault Value :=
  match left, right with
  | .int kind left, .int other right => do
    let type ← commonType kind other
    match joining.arithmetic?, joining.comparison? with
    | some compute, _ =>
      let result := compute left right
      return .int type (type.elim result (·.wrap result))
    | none, some compare => return .bool (compare left right)
    | none, none => .error .rejected
  | .text left, .text right =>
    if joining = .add then .ok (.text (left ++ right)) else .error .rejected
  | _, _ => .error .rejected

/-- The element at a place. -/
def select : Value → Value → Except Fault Value
  | .array element elements, .int _ place =>
    if place < 0 then .error .panic
    else match elements[place.toNat]? with
      | some value => .ok (.int (some element) value)
      | none => .error .panic
  | _, _ => .error .rejected

/-- The part between two bounds. -/
def cut : Value → Value → Value → Except Fault Value
  | .text bytes, .int _ start, .int _ stop =>
    if 0 ≤ start ∧ start ≤ stop ∧ stop ≤ bytes.size then
      .ok (.text (bytes.extract start.toNat stop.toNat))
    else .error .panic
  | _, _, _ => .error .rejected

end Value

/-- The value of an expression. -/
def evaluate (scope : Scope Value) : Expr → Except Fault Value
  | .name identifier =>
    match scope identifier with
    | some (.data value) => .ok value
    | _ => .error .rejected
  | .int value => .ok (.int none value)
  | .string value | .verbatim value => .ok (.text value.toByteArray)
  | .array bits elements =>
    match scope ("uint" ++ toString bits) with
    | some (.type element) => .ok (.array element elements)
    | _ => .error .rejected
  | .wide joining left right | .tight joining left right => do
    match joining, ← evaluate scope left with
    -- The right operand only counts if the left one does not decide.
    | .and, .bool false => return .bool false
    | .or, .bool true => return .bool true
    | .and, .bool true | .or, .bool false => evaluate scope right
    | joining, left => left.join joining (← evaluate scope right)
  | .apply function argument => do
    match scope function, ← evaluate scope argument with
    | some .len, .array _ elements => return .int (some .int) elements.length
    | some (.type type), .int _ value => return .int (some type) (type.wrap value)
    | _, _ => .error .rejected
  | .applyWith function argument base => do
    match scope "strconv", function, ← evaluate scope argument, base with
    | some .package, "strconv.FormatInt", .int _ value, 10
    | some .package, "strconv.FormatUint", .int _ value, 10 =>
      return .text (toString value).toByteArray
    | _, _, _, _ => .error .rejected
  | .index operand place => do (← evaluate scope operand).select (← evaluate scope place)
  | .slice operand start stop => do
    (← evaluate scope operand).cut (← evaluate scope start) (← evaluate scope stop)

/-- Where control goes. -/
inductive Outcome
  | next (scope : Scope Value)
  | returned (value : Value)

/-- Runs statements one after the other until one of them returns. -/
def runAll {σ : Type} (run : Scope Value → σ → Except Fault Outcome) (scope : Scope Value) :
    List σ → Except Fault Outcome
  | [] => .ok (.next scope)
  | statement :: statements => do
    match ← run scope statement with
    | .next scope => runAll run scope statements
    | .returned value => return .returned value

/-- Runs what returns an expression. -/
def runReturn (scope : Scope Value) (value : Expr) : Except Fault Outcome := do
  return .returned (← evaluate scope value)

def Simple.run (scope : Scope Value) : Simple → Except Fault Outcome
  | .decrease identifier amount => do
    let value ← evaluate scope (.wide .sub (.name identifier) (.int amount))
    return .next (scope.declare identifier (.data value))
  | .ret value => runReturn scope value

/-- Runs the first of some cases whose condition holds. -/
def runCases (scope : Scope Value) (otherwise : Expr) : List Arm → Except Fault Outcome
  | [] => runReturn scope otherwise
  | arm :: arms => do
    match ← evaluate scope arm.condition with
    | .bool true => runAll Simple.run scope arm.body
    | .bool false => runCases scope otherwise arms
    | _ => .error .rejected

def Stmt.run (scope : Scope Value) : Stmt → Except Fault Outcome
  | .simple statement => statement.run scope
  | .ifReturn condition value => do
    match ← evaluate scope condition with
    | .bool true => runReturn scope value
    | .bool false => return .next scope
    | _ => .error .rejected
  | .ifFound map key =>
    match scope map, scope key with
    | some (.data (.map _ entries)), some (.data (.int _ key)) =>
      match entries.lookup key with
      | some text => .ok (.returned (.text text))
      | none => .ok (.next scope)
    | _, _ => .error .rejected
  | .switch arms otherwise => runCases scope otherwise arms

/-- The scope with what a definition gives its name. -/
def define (scope : Scope Value) (definition : String × Expr) : Except Fault (Scope Value) := do
  return scope.declare definition.1 (.data (← evaluate scope definition.2))

/-- An entry of a map. -/
def entry (scope : Scope Value) (entry : Int × Expr) : Except Fault (Int × ByteArray) := do
  match ← evaluate scope entry.2 with
  | .text bytes => return (entry.1, bytes)
  | _ => .error .rejected

/-- The scope behind an item. -/
def load (scope : Scope Value) : Item → Except Fault (Scope Value)
  | .const name value | .var name value => define scope (name, value)
  | .consts definitions | .vars definitions => definitions.foldlM define scope
  | .mapVar name keyType entries =>
    match scope keyType with
    | some (.type type) => do
      let entries ← entries.mapM (entry scope)
      return scope.declare name (.data (.map type entries))
    | _ => .error .rejected
  | .stringMethod _ _ => .ok scope
  | _ => .error .rejected

/-- The body of the method of a type. -/
def body? (typeName : String) : Item → Option (List Stmt)
  | .stringMethod name body => if name = typeName then some body else none
  | _ => none

/-- Loads the items into a file with a type and calls the method of the type on a value. -/
def callString (type : IntType) (items : List Item) (value : Int) : Except Fault ByteArray := do
  let scope ← items.foldlM load (fileScope type)
  let some body := items.findSome? (body? type.name) | .error .rejected
  match ← runAll Stmt.run (scope.declare "i" (.data (.int (some type) value))) body with
  | .returned (.text bytes) => return bytes
  | _ => .error .rejected

end EnumNames.Go
