import EnumNames.Proofs.Go.Scope
import Mathlib

/-! What a Go compiler accepts, for the declarations that name tables are written in. Names are
declared before they are used and only once, which is more than the language asks for. -/
namespace EnumNames.Go

inductive Ty
  | int (type : IntType)
  | string
  | bool
  | array (element : IntType) (length : Nat)
  /-- A map to texts. -/
  | map (key : IntType)
deriving DecidableEq, Repr

/-- What is known of an operand before the program runs. -/
inductive Operand
  /-- A constant, without a type if none has been asked for. -/
  | number (type : Option IntType) (value : Int)
  /-- A constant text, in UTF-8. -/
  | text (bytes : ByteArray)
  | computed (type : Ty)
deriving DecidableEq

namespace Operand

/-- Whether an operand goes where a text is asked for. -/
def isString : Operand → Bool
  | .text _ | .computed .string => true
  | _ => false

/-- Whether an operand goes where a value of a type is asked for. -/
def fits (type : IntType) : Operand → Bool
  | .number kind value => kind.getD type = type && type.holds value
  | .computed kind => kind = .int type
  | .text _ => false

/-- Two integers of a type, of which at least one is known when the program runs only. -/
def combine? (joining : Operator) (type : IntType) : Option Operand :=
  if joining.arithmetic?.isSome then some (.computed (.int type))
  else if joining.comparison?.isSome then some (.computed .bool)
  else none

/-- A constant, if its type holds it. -/
def number? (type : Option IntType) (value : Int) : Option Operand :=
  if type.all (·.holds value) then some (.number type value) else none

/-- What an operator makes of two operands. -/
def join? (joining : Operator) : Operand → Operand → Option Operand
  | .number kind left, .number none right | .number none left, .number kind right => do
    let compute ← joining.arithmetic?
    number? kind (compute left right)
  | .number (some kind) left, .number (some other) right => do
    let compute ← joining.arithmetic?
    if kind = other then number? (some kind) (compute left right) else none
  | .computed (.int type), right => if right.fits type then combine? joining type else none
  | left, .computed (.int type) => if left.fits type then combine? joining type else none
  | .text left, .text right => if joining = .add then some (.text (left ++ right)) else none
  | .computed .bool, .computed .bool =>
    if joining = .and ∨ joining = .or then some (.computed .bool) else none
  | left, right =>
    if joining = .add ∧ left.isString ∧ right.isString then some (.computed .string) else none

/-- A place in something of a length. A constant place is checked already. -/
def isPlace (length : Nat) : Operand → Bool
  | .number _ value => 0 ≤ value && value < length
  | .computed (.int _) => true
  | _ => false

/-- A bound of a part of a text. A constant bound is checked already where the length is known. -/
def isBound (length : Option Nat) : Operand → Bool
  | .number _ value => 0 ≤ value && length.all (value ≤ ·)
  | .computed (.int _) => true
  | _ => false

/-- The bounds of a part of a text. Constant bounds must come in order. -/
def areBounds (length : Option Nat) (start stop : Operand) : Bool :=
  start.isBound length && stop.isBound length && match start, stop with
    | .number _ start, .number _ stop => start ≤ stop
    | _, _ => true

end Operand

/-- The operand that an expression is. An array may have any length here. Go asks for one that an
`int` holds, and `Descriptor.Compiled.int_holds_length_offsets` says when all arrays have one. -/
def operand? (scope : Scope Operand) : Expr → Option Operand
  | .name identifier =>
    match scope identifier with
    | some (.data operand) => some operand
    | _ => none
  | .int value => some (.number none value)
  | .string value | .verbatim value => some (.text value.toByteArray)
  | .array bits elements =>
    match scope ("uint" ++ toString bits) with
    | some (.type element) =>
      if elements.all (element.holds ·) then some (.computed (.array element elements.length))
      else none
    | _ => none
  | .wide joining left right | .tight joining left right => do
    let left ← operand? scope left
    let right ← operand? scope right
    left.join? joining right
  | .apply function argument => do
    let argument ← operand? scope argument
    match scope function, argument with
    -- The length of an array is a constant.
    | some .len, .computed (.array _ length) => some (.number (some .int) length)
    | some (.type type), .number _ value => Operand.number? (some type) value
    | some (.type type), .computed (.int _) => some (.computed (.int type))
    | _, _ => none
  | .applyWith function argument _ => do
    let argument ← operand? scope argument
    match scope "strconv", function with
    | some .package, "strconv.FormatInt" =>
      if argument.fits .int64 then some (.computed .string) else none
    | some .package, "strconv.FormatUint" =>
      if argument.fits .uint64 then some (.computed .string) else none
    | _, _ => none
  | .index operand place => do
    let operand ← operand? scope operand
    let place ← operand? scope place
    match operand with
    | .computed (.array element length) =>
      if place.isPlace length then some (.computed (.int element)) else none
    | _ => none
  | .slice operand start stop => do
    let operand ← operand? scope operand
    let start ← operand? scope start
    let stop ← operand? scope stop
    match operand with
    | .text bytes =>
      if Operand.areBounds (some bytes.size) start stop then some (.computed .string) else none
    | .computed .string => if Operand.areBounds none start stop then some (.computed .string) else none
    | _ => none

/-- Whether an expression goes where a text is asked for. -/
def returnsString (scope : Scope Operand) (value : Expr) : Bool :=
  (operand? scope value).any Operand.isString

/-- Whether a condition is one. -/
def isCondition (scope : Scope Operand) (condition : Expr) : Bool :=
  operand? scope condition == some (.computed .bool)

namespace Simple

def accepted (scope : Scope Operand) : Simple → Bool
  | .decrease identifier amount =>
    match scope identifier with
    | some (.data (.computed (.int type))) => type.holds amount
    | _ => false
  | .ret value => returnsString scope value

def terminates : Simple → Bool
  | .decrease _ _ => false
  | .ret _ => true

end Simple

namespace Stmt

def accepted (scope : Scope Operand) : Stmt → Bool
  | .simple statement => statement.accepted scope
  | .ifReturn condition value => isCondition scope condition && returnsString scope value
  | .ifFound map key =>
    match scope map, scope key with
    | some (.data (.computed (.map keyType))), some (.data operand) => operand.fits keyType
    | _, _ => false
  | .switch arms otherwise =>
    arms.all (fun arm => isCondition scope arm.condition && arm.body.all (·.accepted scope)) &&
      returnsString scope otherwise

/-- Whether control never goes on behind a statement. -/
def terminates : Stmt → Bool
  | .simple statement => statement.terminates
  | .ifReturn _ _ | .ifFound _ _ => false
  | .switch arms _ => arms.all fun arm => arm.body.getLast?.any Simple.terminates

end Stmt

/-- The scope with a new name. -/
def declare? (scope : Scope Operand) (name : String) (operand : Operand) :
    Option (Scope Operand) :=
  match scope name with
  | none => some (scope.declare name (.data operand))
  | some _ => none

/-- The scope behind the definition of a constant. -/
def declareConst? (scope : Scope Operand) (definition : String × Expr) :
    Option (Scope Operand) := do
  match ← operand? scope definition.2 with
  | .computed _ => none
  | constant => declare? scope definition.1 constant

/-- The scope behind the definition of a variable by an array. -/
def declareVar? (scope : Scope Operand) (definition : String × Expr) :
    Option (Scope Operand) := do
  match ← operand? scope definition.2 with
  | .computed type => declare? scope definition.1 (.computed type)
  | _ => none

/-- Whether no key comes twice, every key has the type and every value is a text. -/
def areEntries (scope : Scope Operand) (key : IntType) (entries : List (Int × Expr)) : Bool :=
  (entries.map Prod.fst).Nodup &&
    entries.all fun entry => key.holds entry.1 && returnsString scope entry.2

/-- Whether the statements are the body of a method that returns a text. -/
def isBody (scope : Scope Operand) (body : List Stmt) : Bool :=
  body.all (·.accepted scope) && body.getLast?.any Stmt.terminates

/-- The scope behind an item that is accepted. -/
def declareItem? (scope : Scope Operand) : Item → Option (Scope Operand)
  | .const name value => declareConst? scope (name, value)
  | .consts definitions => definitions.foldlM declareConst? scope
  | .var name value => declareVar? scope (name, value)
  | .vars definitions => definitions.foldlM declareVar? scope
  | .mapVar name keyType entries =>
    match scope keyType, scope "string" with
    | some (.type type), some .string =>
      if areEntries scope type entries then declare? scope name (.computed (.map type)) else none
    | _, _ => none
  | .stringMethod typeName body =>
    match scope typeName, scope "string" with
    | some (.type type), some .string =>
      if type.isDeclared && isBody (scope.declare "i" (.data (.computed (.int type)))) body then
        some scope
      else none
    | _, _ => none
  | _ => none

/-- The type whose method an item is. -/
def methodOf? : Item → Option String
  | .stringMethod typeName _ => some typeName
  | _ => none

/-- Whether the items are accepted one after the other in a file with a type. -/
def accepts (type : IntType) (items : List Item) : Bool :=
  (items.filterMap methodOf?).Nodup && (items.foldlM declareItem? (fileScope type)).isSome

end EnumNames.Go
