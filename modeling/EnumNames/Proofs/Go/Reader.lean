import EnumNames.Proofs.Go.Token

/-! The grammar of Go, for the declarations that name tables are written in. Reading gives back
trees without a trace of layout: comments are gone, every literal stands for its text, and every
operator has blanks around it. What the trees have no form for is refused. -/
namespace EnumNames.Go

/-- How tightly an operator binds. -/
def Operator.level : Operator → Nat
  | .or => 1
  | .and => 2
  | .equal | .less | .atMost | .atLeast => 3
  | .add | .sub => 4

/-- The numbers of an array behind its opening brace. -/
def elements? : List Token → Option (List Nat × List Token)
  | .sign .closeBrace :: rest => some ([], rest)
  | .number n :: .sign .closeBrace :: rest => some ([n], rest)
  | .number n :: .sign .comma :: rest => do
    let (elements, rest) ← elements? rest
    return (n :: elements, rest)
  | _ => none

/-- The width in bits of an unsigned type, by its name. -/
def elementBits? (name : String) : Option Nat :=
  [8, 16, 32].find? fun bits => name == "uint" ++ toString bits

mutual

/-- An expression whose operators bind at least as tightly as a level says. Whatever is read takes
up tokens; this is tested where the reading goes on, so that it ends. -/
def expr? (level : Nat) (tokens : List Token) : Option (Expr × List Token) := do
  let (left, rest) ← primary? tokens
  if rest.length < tokens.length then operators? level left rest else none
termination_by (tokens.length, 2)

/-- The operators behind a left operand, and their right operands. -/
def operators? (level : Nat) (left : Expr) (tokens : List Token) : Option (Expr × List Token) :=
  match tokens with
  | .sign (.operator joining) :: operand =>
    if level ≤ joining.level then do
      let (right, rest) ← expr? (joining.level + 1) operand
      if rest.length < operand.length then operators? level (.wide joining left right) rest
      else none
    else some (left, tokens)
  | _ => some (left, tokens)
termination_by (tokens.length, 1)

/-- A literal, a call or conversion, or a name with what is selected from it. -/
def primary? (tokens : List Token) : Option (Expr × List Token) :=
  match tokens with
  | .number n :: rest => some (.int n, rest)
  | .sign (.operator .sub) :: .number n :: rest => some (.int (-n), rest)
  | .literal text :: rest => some (.string text, rest)
  | .sign .openBracket :: .sign .ellipsis :: .sign .closeBracket :: .name element ::
      .sign .openBrace :: rest => do
    let bits ← elementBits? element
    let (elements, rest) ← elements? rest
    return (.array bits elements, rest)
  | .name package :: .sign .dot :: .name function :: .sign .openParen :: rest => do
    let (argument, rest) ← expr? 1 rest
    match rest with
    | .sign .comma :: .number n :: .sign .closeParen :: rest =>
      return (.applyWith (package ++ "." ++ function) argument n, rest)
    | _ => none
  | .name function :: .sign .openParen :: rest => do
    let (argument, rest) ← expr? 1 rest
    match rest with
    | .sign .closeParen :: rest => return (.apply function argument, rest)
    | _ => none
  | .name operand :: .sign .openBracket :: inner => do
    let (start, rest) ← expr? 1 inner
    match rest with
    | .sign .closeBracket :: rest => return (.index (.name operand) start, rest)
    | .sign .colon :: rest =>
      if rest.length < inner.length then do
        let (stop, rest) ← expr? 1 rest
        match rest with
        | .sign .closeBracket :: rest => return (.slice (.name operand) start stop, rest)
        | _ => none
      else none
    | _ => none
  | .name identifier :: rest => some (.name identifier, rest)
  | _ => none
termination_by (tokens.length, 0)

end

/-- An integer with its sign. -/
def integer? : List Token → Option (Int × List Token)
  | .number n :: rest => some (n, rest)
  | .sign (.operator .sub) :: .number n :: rest => some (-n, rest)
  | _ => none

def simple? : List Token → Option (Simple × List Token)
  | .name identifier :: .sign .decrease :: rest => do
    let (amount, rest) ← integer? rest
    return (.decrease identifier amount, rest)
  | .keyword .return :: rest => do
    let (value, rest) ← expr? 1 rest
    return (.ret value, rest)
  | _ => none

/-- The statements of a case, up to the next case. -/
def simples? (tokens : List Token) : Option (List Simple × List Token) :=
  match tokens with
  | .keyword .case :: _ | .keyword .default :: _ | .sign .closeBrace :: _ => some ([], tokens)
  | tokens => do
    let (statement, rest) ← simple? tokens
    match rest with
    | .sign .semicolon :: rest =>
      if rest.length < tokens.length then do
        let (statements, rest) ← simples? rest
        return (statement :: statements, rest)
      else none
    | _ => none
termination_by tokens.length

/-- The cases of a switch, and behind them what it returns otherwise. -/
def arms? (tokens : List Token) : Option (List Arm × Expr × List Token) :=
  match tokens with
  | .keyword .case :: branch => do
    let (condition, rest) ← expr? 1 branch
    match rest with
    | .sign .colon :: rest => do
      let (body, rest) ← simples? rest
      if rest.length < branch.length then do
        let (arms, otherwise, rest) ← arms? rest
        return (⟨condition, body⟩ :: arms, otherwise, rest)
      else none
    | _ => none
  | .keyword .default :: .sign .colon :: .keyword .return :: rest => do
    let (otherwise, rest) ← expr? 1 rest
    match rest with
    | .sign .semicolon :: .sign .closeBrace :: rest => return ([], otherwise, rest)
    | _ => none
  | _ => none
termination_by tokens.length

def stmt? : List Token → Option (Stmt × List Token)
  | .keyword .if :: .name "str" :: .sign .comma :: .name "ok" :: .sign .define :: .name map ::
      .sign .openBracket :: .name key :: .sign .closeBracket :: .sign .semicolon :: .name "ok" ::
      .sign .openBrace :: .keyword .return :: .name "str" :: .sign .semicolon ::
      .sign .closeBrace :: rest => some (.ifFound map key, rest)
  | .keyword .if :: rest => do
    let (condition, rest) ← expr? 1 rest
    match rest with
    | .sign .openBrace :: .keyword .return :: rest => do
      let (value, rest) ← expr? 1 rest
      match rest with
      | .sign .semicolon :: .sign .closeBrace :: rest => return (.ifReturn condition value, rest)
      | _ => none
    | _ => none
  | .keyword .switch :: .sign .openBrace :: rest => do
    let (arms, otherwise, rest) ← arms? rest
    return (.switch arms otherwise, rest)
  | tokens => do
    let (statement, rest) ← simple? tokens
    return (.simple statement, rest)

/-- The statements of a body behind its opening brace. -/
def stmts? (tokens : List Token) : Option (List Stmt × List Token) :=
  match tokens with
  | .sign .closeBrace :: rest => some ([], rest)
  | tokens => do
    let (statement, rest) ← stmt? tokens
    match rest with
    | .sign .semicolon :: rest =>
      if rest.length < tokens.length then do
        let (statements, rest) ← stmts? rest
        return (statement :: statements, rest)
      else none
    | _ => none
termination_by tokens.length

/-- The definitions of a group behind its opening parenthesis. -/
def definitions? (tokens : List Token) : Option (List (String × Expr) × List Token) :=
  match tokens with
  | .sign .closeParen :: rest => some ([], rest)
  | .name identifier :: .sign .assign :: definition => do
    let (value, rest) ← expr? 1 definition
    match rest with
    | .sign .semicolon :: rest =>
      if rest.length < definition.length then do
        let (definitions, rest) ← definitions? rest
        return ((identifier, value) :: definitions, rest)
      else none
    | _ => none
  | _ => none
termination_by tokens.length

/-- The entries of a map behind its opening brace. -/
def entries? (tokens : List Token) : Option (List (Int × Expr) × List Token) :=
  match tokens with
  | .sign .closeBrace :: rest => some ([], rest)
  | tokens => do
    let (key, rest) ← integer? tokens
    match rest with
    | .sign .colon :: rest => do
      let (value, rest) ← expr? 1 rest
      match rest with
      | .sign .comma :: rest =>
        if rest.length < tokens.length then do
          let (entries, rest) ← entries? rest
          return ((key, value) :: entries, rest)
        else none
      | _ => none
    | _ => none
termination_by tokens.length

def item? : List Token → Option (Item × List Token)
  | .keyword .const :: .sign .openParen :: rest => do
    let (definitions, rest) ← definitions? rest
    return (.consts definitions, rest)
  | .keyword .const :: .name identifier :: .sign .assign :: rest => do
    let (value, rest) ← expr? 1 rest
    return (.const identifier value, rest)
  | .keyword .var :: .sign .openParen :: rest => do
    let (definitions, rest) ← definitions? rest
    return (.vars definitions, rest)
  | .keyword .var :: .name identifier :: .sign .assign :: .keyword .map :: .sign .openBracket ::
      .name keyType :: .sign .closeBracket :: .name "string" :: .sign .openBrace :: rest => do
    let (entries, rest) ← entries? rest
    return (.mapVar identifier keyType entries, rest)
  | .keyword .var :: .name identifier :: .sign .assign :: rest => do
    let (value, rest) ← expr? 1 rest
    return (.var identifier value, rest)
  | .keyword .func :: .sign .openParen :: .name "i" :: .name typeName :: .sign .closeParen ::
      .name "String" :: .sign .openParen :: .sign .closeParen :: .name "string" ::
      .sign .openBrace :: rest => do
    let (body, rest) ← stmts? rest
    return (.stringMethod typeName body, rest)
  | _ => none

/-- The declarations up to the end. -/
def items? (tokens : List Token) : Option (List Item) :=
  match tokens with
  | [] => some []
  | tokens => do
    let (item, rest) ← item? tokens
    match rest with
    | .sign .semicolon :: rest =>
      if rest.length < tokens.length then do
        let items ← items? rest
        return item :: items
      else none
    | _ => none
termination_by tokens.length

/-- The declarations that a text stands for. -/
def read? (alphabet : Alphabet) (text : String) : Option (List Item) := do
  let tokens ← tokens? alphabet text
  items? tokens

end EnumNames.Go
