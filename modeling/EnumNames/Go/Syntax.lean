import EnumNames.Go.Quoted

/-! The part of Go that name tables are written in, and its text. No expression needs
parentheses: operands are always tighter than the operator that joins them. -/
namespace EnumNames.Go

inductive Operator
  | or
  | and
  | equal
  | less
  | atMost
  | atLeast
  | add
  | sub
deriving DecidableEq, Repr

def Operator.sign : Operator → String
  | .or => "||"
  | .and => "&&"
  | .equal => "=="
  | .less => "<"
  | .atMost => "<="
  | .atLeast => ">="
  | .add => "+"
  | .sub => "-"

inductive Expr
  | name (identifier : String)
  | int (value : Int)
  /-- A literal that stands for a text. -/
  | string (value : String)
  /-- A literal whose characters are written as they are. -/
  | verbatim (characters : String)
  /-- Unsigned numbers of a width in bits, as many as are listed. -/
  | array (bits : Nat) (elements : List Nat)
  /-- Two operands with blanks around the operator. -/
  | wide (operator : Operator) (left right : Expr)
  /-- Two operands without blanks. -/
  | tight (operator : Operator) (left right : Expr)
  /-- A conversion, or a call with one argument. -/
  | apply (function : String) (argument : Expr)
  /-- A call with a number as its second argument. -/
  | applyWith (function : String) (argument : Expr) (number : Nat)
  | index (operand place : Expr)
  | slice (operand start stop : Expr)
deriving DecidableEq, Repr

def Expr.text : Expr → String
  | .name identifier => identifier
  | .int value => toString value
  | .string value => quoted value
  | .verbatim characters => "\"" ++ characters ++ "\""
  | .array bits elements =>
    "[...]uint" ++ toString bits ++ "\x7b" ++ ", ".intercalate (elements.map toString) ++ "\x7d"
  | .wide operator left right => left.text ++ " " ++ operator.sign ++ " " ++ right.text
  | .tight operator left right => left.text ++ operator.sign ++ right.text
  | .apply function argument => function ++ "(" ++ argument.text ++ ")"
  | .applyWith function argument number =>
    function ++ "(" ++ argument.text ++ ", " ++ toString number ++ ")"
  | .index operand place => operand.text ++ "[" ++ place.text ++ "]"
  | .slice operand start stop => operand.text ++ "[" ++ start.text ++ ":" ++ stop.text ++ "]"

/-- Statements on one line. -/
inductive Simple
  | decrease (identifier : String) (amount : Int)
  | ret (value : Expr)
deriving DecidableEq, Repr

def Simple.text : Simple → String
  | .decrease identifier amount => identifier ++ " -= " ++ toString amount
  | .ret value => "return " ++ value.text

/-- One case of a switch without a tag. -/
structure Arm where
  condition : Expr
  body : List Simple
deriving DecidableEq, Repr

inductive Stmt
  | simple (statement : Simple)
  | ifReturn (condition value : Expr)
  /-- Returns the entry of a map under a key if it has one. -/
  | ifFound (map key : String)
  | switch (arms : List Arm) (otherwise : Expr)
deriving DecidableEq, Repr

def indent (line : String) : String := "\t" ++ line

def Arm.lines (arm : Arm) : List String :=
  ("case " ++ arm.condition.text ++ ":") :: arm.body.map fun statement => indent statement.text

def Stmt.lines : Stmt → List String
  | .simple statement => [statement.text]
  | .ifReturn condition value =>
    ["if " ++ condition.text ++ " \x7b", indent ("return " ++ value.text), "\x7d"]
  | .ifFound map key => ["if str, ok := " ++ map ++ "[" ++ key ++ "]; ok \x7b", indent "return str", "\x7d"]
  | .switch arms otherwise =>
    "switch \x7b" :: arms.flatMap Arm.lines ++
      ["default:", indent ("return " ++ otherwise.text), "\x7d"]

/-- What stands at the top level of a file. -/
inductive Item
  | comments (lines : List String)
  | packageClause (name : String)
  | importClause (path : String)
  | const (name : String) (value : Expr)
  | consts (group : List (String × Expr))
  | var (name : String) (value : Expr)
  | vars (group : List (String × Expr))
  /-- A map from numbers of a type to strings. -/
  | mapVar (name keyType : String) (entries : List (Int × Expr))
  /-- The method `String` of a type, with the receiver `i`. -/
  | stringMethod (typeName : String) (body : List Stmt)
  /-- A function that compiles only if each constant has the number given for it. -/
  | guard (constants : List (String × Int))
deriving DecidableEq, Repr

/-- A parenthesized group of definitions. -/
def group (keyword : String) (definitions : List (String × Expr)) : List String :=
  (keyword ++ " (") :: definitions.map (fun (name, value) => indent (name ++ " = " ++ value.text)) ++
    [")"]

def Item.lines : Item → List String
  | .comments lines => lines.map ("// " ++ ·)
  | .packageClause name => ["package " ++ name]
  | .importClause path => ["import " ++ quoted path]
  | .const name value => ["const " ++ name ++ " = " ++ value.text]
  | .consts definitions => group "const" definitions
  | .var name value => ["var " ++ name ++ " = " ++ value.text]
  | .vars definitions => group "var" definitions
  | .mapVar name keyType entries =>
    ("var " ++ name ++ " = map[" ++ keyType ++ "]string\x7b") ::
      entries.map (fun (key, value) => indent (toString key ++ ": " ++ value.text ++ ",")) ++ ["\x7d"]
  | .stringMethod typeName body =>
    ("func (i " ++ typeName ++ ") String() string \x7b") ::
      (body.flatMap Stmt.lines).map indent ++ ["\x7d"]
  | .guard constants =>
    ["func _() \x7b",
      indent "// An \"invalid array index\" compiler error signifies that the constant values have changed.",
      indent "// Re-run the stringer command to generate them again.",
      indent "var x [1]struct\x7b\x7d"] ++
      constants.map (fun (name, value) => indent ("_ = x[" ++ name ++ " - " ++ toString value ++ "]")) ++
      ["\x7d"]

/-- The lines of the items, with an empty line between one item and the next. -/
def layout (items : List Item) : List String :=
  [""].intercalate (items.map Item.lines)

end EnumNames.Go
