import EnumNames.Proofs.Go.ExprReading

/-! Statements and declarations are read back from their tokens. -/
namespace EnumNames.Go
variable {alphabet : Alphabet}

namespace Simple

def tokens : Simple → List Token
  | .decrease identifier amount =>
    .name identifier :: .sign .decrease :: Expr.integerTokens amount
  | .ret value => .keyword .return :: value.tokens

def normal : Simple → Simple
  | .decrease identifier amount => .decrease identifier amount
  | .ret value => .ret value.normal

def Stands (alphabet : Alphabet) : Simple → Prop
  | .decrease identifier _ => alphabet.IsName identifier
  | .ret value => value.Stands alphabet 1

end Simple

namespace Arm

def tokens (arm : Arm) : List Token :=
  .keyword .case :: (arm.condition.tokens ++ .sign .colon ::
    arm.body.flatMap fun statement => statement.tokens ++ [.sign .semicolon])

def normal (arm : Arm) : Arm := ⟨arm.condition.normal, arm.body.map Simple.normal⟩

def Stands (alphabet : Alphabet) (arm : Arm) : Prop :=
  arm.condition.Stands alphabet 1 ∧ ∀ statement ∈ arm.body, statement.Stands alphabet

end Arm

namespace Stmt

def tokens : Stmt → List Token
  | .simple statement => statement.tokens
  | .ifReturn condition value =>
    .keyword .if :: (condition.tokens ++ .sign .openBrace :: .keyword .return ::
      (value.tokens ++ [.sign .semicolon, .sign .closeBrace]))
  | .ifFound map key =>
    [.keyword .if, .name "str", .sign .comma, .name "ok", .sign .define, .name map,
      .sign .openBracket, .name key, .sign .closeBracket, .sign .semicolon, .name "ok",
      .sign .openBrace, .keyword .return, .name "str", .sign .semicolon, .sign .closeBrace]
  | .switch arms otherwise =>
    .keyword .switch :: .sign .openBrace :: (arms.flatMap Arm.tokens ++ .keyword .default ::
      .sign .colon :: .keyword .return ::
        (otherwise.tokens ++ [.sign .semicolon, .sign .closeBrace]))

def normal : Stmt → Stmt
  | .simple statement => .simple statement.normal
  | .ifReturn condition value => .ifReturn condition.normal value.normal
  | .ifFound map key => .ifFound map key
  | .switch arms otherwise => .switch (arms.map Arm.normal) otherwise.normal

def Stands (alphabet : Alphabet) : Stmt → Prop
  | .simple statement => statement.Stands alphabet
  | .ifReturn condition value => condition.Stands alphabet 1 ∧ value.Stands alphabet 1
  | .ifFound map key => alphabet.IsName map ∧ alphabet.IsName key
  | .switch arms otherwise =>
    (∀ arm ∈ arms, arm.Stands alphabet) ∧ otherwise.Stands alphabet 1

end Stmt

/-- The tokens of a definition in a group. -/
def definitionTokens (definition : String × Expr) : List Token :=
  .name definition.1 :: .sign .assign :: (definition.2.tokens ++ [.sign .semicolon])

/-- The tokens of an entry of a map. -/
def entryTokens (entry : Int × Expr) : List Token :=
  Expr.integerTokens entry.1 ++ .sign .colon :: (entry.2.tokens ++ [.sign .comma])

namespace Item

/-- The tokens of an item, for the items that a section is made of. -/
def tokens : Item → List Token
  | .const name value => .keyword .const :: .name name :: .sign .assign :: value.tokens
  | .consts definitions =>
    .keyword .const :: .sign .openParen :: (definitions.flatMap definitionTokens ++
      [.sign .closeParen])
  | .var name value => .keyword .var :: .name name :: .sign .assign :: value.tokens
  | .vars definitions =>
    .keyword .var :: .sign .openParen :: (definitions.flatMap definitionTokens ++
      [.sign .closeParen])
  | .mapVar name keyType entries =>
    .keyword .var :: .name name :: .sign .assign :: .keyword .map :: .sign .openBracket ::
      .name keyType :: .sign .closeBracket :: .name "string" :: .sign .openBrace ::
        (entries.flatMap entryTokens ++ [.sign .closeBrace])
  | .stringMethod typeName body =>
    .keyword .func :: .sign .openParen :: .name "i" :: .name typeName :: .sign .closeParen ::
      .name "String" :: .sign .openParen :: .sign .closeParen :: .name "string" ::
        .sign .openBrace :: (body.flatMap (fun statement =>
          statement.tokens ++ [.sign .semicolon]) ++ [.sign .closeBrace])
  | _ => []

def normal : Item → Item
  | .const name value => .const name value.normal
  | .consts definitions => .consts (definitions.map (Prod.map id Expr.normal))
  | .var name value => .var name value.normal
  | .vars definitions => .vars (definitions.map (Prod.map id Expr.normal))
  | .mapVar name keyType entries => .mapVar name keyType (entries.map (Prod.map id Expr.normal))
  | .stringMethod typeName body => .stringMethod typeName (body.map Stmt.normal)
  | item => item

def Stands (alphabet : Alphabet) : Item → Prop
  | .const name value | .var name value => alphabet.IsName name ∧ value.Stands alphabet 1
  | .consts definitions | .vars definitions =>
    ∀ definition ∈ definitions, alphabet.IsName definition.1 ∧ definition.2.Stands alphabet 1
  | .mapVar name keyType entries =>
    alphabet.IsName name ∧ alphabet.IsName keyType ∧ ∀ entry ∈ entries, entry.2.Stands alphabet 1
  | .stringMethod typeName body =>
    alphabet.IsName typeName ∧ ∀ statement ∈ body, statement.Stands alphabet
  | _ => False

end Item

theorem integer?_tokens (value : Int) (rest : List Token) :
    integer? (Expr.integerTokens value ++ rest) = some (value, rest) := by
  unfold Expr.integerTokens
  split
  · have same : -(value.natAbs : Int) = value := by omega
    simp only [List.cons_append, List.nil_append, integer?, same]
  · have same : (value.natAbs : Int) = value := by omega
    simp only [List.cons_append, List.nil_append, integer?, same]

/-- What stands behind a token is shorter than the whole. -/
theorem length_lt_append (tokens : List Token) (token : Token) (rest : List Token) :
    rest.length < (tokens ++ token :: rest).length := by
  rw [List.length_append, List.length_cons]
  omega

theorem Simple.read {statement : Simple} (stands : statement.Stands alphabet) (rest : List Token) :
    simple? (statement.tokens ++ .sign .semicolon :: rest) =
      some (statement.normal, .sign .semicolon :: rest) := by
  cases statement with
  | decrease identifier amount =>
    simp only [tokens, List.cons_append, simple?, integer?_tokens]
    rfl
  | ret value =>
    have read := Expr.read stands (.sign .semicolon :: rest) rfl
    simp only [tokens, List.cons_append, simple?, read]
    rfl

/-- Whether the statements of a case end in front of some tokens. -/
def closesCase : List Token → Bool
  | .keyword .case :: _ | .keyword .default :: _ | .sign .closeBrace :: _ => true
  | _ => false

theorem simples?_of_closes {rest : List Token} (ends : closesCase rest) :
    simples? rest = some ([], rest) := by
  rw [simples?.eq_def]
  split <;> simp_all [closesCase]

theorem simples?_tokens {body : List Simple} (stands : ∀ statement ∈ body, statement.Stands alphabet)
    {rest : List Token} (ends : closesCase rest) :
    simples? (body.flatMap (fun statement => statement.tokens ++ [.sign .semicolon]) ++ rest) =
      some (body.map Simple.normal, rest) := by
  induction body with
  | nil => exact simples?_of_closes ends
  | cons statement body ih =>
    obtain ⟨own, others⟩ := List.forall_mem_cons.mp stands
    have first := Simple.read own
      (body.flatMap (fun statement => statement.tokens ++ [.sign .semicolon]) ++ rest)
    have shorter := length_lt_append statement.tokens (.sign .semicolon)
      (body.flatMap (fun statement => statement.tokens ++ [.sign .semicolon]) ++ rest)
    simp only [List.flatMap_cons, List.append_assoc, List.cons_append, List.nil_append]
    rw [simples?.eq_def]
    split
    · cases statement <;> simp_all [Simple.tokens]
    · cases statement <;> simp_all [Simple.tokens]
    · cases statement <;> simp_all [Simple.tokens]
    · simp only [first, ih others, shorter, if_true, Option.bind_eq_bind, Option.bind_some]
      rfl

theorem arms?_tokens {arms : List Arm} {otherwise : Expr}
    (stands : ∀ arm ∈ arms, arm.Stands alphabet) (last : otherwise.Stands alphabet 1)
    (rest : List Token) :
    arms? (arms.flatMap Arm.tokens ++ .keyword .default :: .sign .colon :: .keyword .return ::
        (otherwise.tokens ++ .sign .semicolon :: .sign .closeBrace :: rest)) =
      some (arms.map Arm.normal, otherwise.normal, rest) := by
  induction arms with
  | nil =>
    have read := Expr.read last (.sign .semicolon :: .sign .closeBrace :: rest) rfl
    rw [arms?.eq_def]
    simp only [List.flatMap_nil, List.nil_append, read]
    rfl
  | cons arm arms ih =>
    obtain ⟨⟨condition, body⟩, others⟩ := List.forall_mem_cons.mp stands
    have next := ih others
    have ends : closesCase (arms.flatMap Arm.tokens ++ .keyword .default :: .sign .colon ::
        .keyword .return :: (otherwise.tokens ++ .sign .semicolon :: .sign .closeBrace :: rest)) := by
      cases arms <;> rfl
    rw [arms?.eq_def]
    simp only [List.flatMap_cons, Arm.tokens, List.cons_append, List.append_assoc,
      Expr.read condition (.sign .colon :: _) rfl, simples?_tokens body ends, next,
      Option.bind_eq_bind, Option.bind_some]
    rw [if_pos (by simp only [List.length_append, List.length_cons]; omega)]
    rfl

theorem stmt?_if {condition value : Expr} (tested : condition.Stands alphabet 1)
    (returned : value.Stands alphabet 1) (rest : List Token) :
    stmt? ((Stmt.ifReturn condition value).tokens ++ rest) =
      some (.ifReturn condition.normal value.normal, rest) := by
  have first := Expr.read tested (.sign .openBrace :: .keyword .return ::
    (value.tokens ++ .sign .semicolon :: .sign .closeBrace :: rest)) rfl
  have second := Expr.read returned (.sign .semicolon :: .sign .closeBrace :: rest) rfl
  simp only [Stmt.tokens, List.cons_append, List.append_assoc, List.nil_append]
  unfold stmt?
  split
  · -- A condition that begins like the definition of two names would be read as the first one.
    rename_i same
    have ends (rest : List Token) : closes 0 (.sign .comma :: rest) = true := rfl
    rw [(List.cons.inj same).2, expr?_primary (primary?_name (ends _)) (Nat.lt_succ_self _),
      operators?_of_closes Nat.one_pos (ends _)] at first
    simp at first
  · rename_i same
    rw [← (List.cons.inj same).2]
    simp only [first, second, Option.bind_eq_bind, Option.bind_some]
    rfl
  · simp_all
  · simp_all

theorem Stmt.read {statement : Stmt} (stands : statement.Stands alphabet) (rest : List Token) :
    stmt? (statement.tokens ++ .sign .semicolon :: rest) =
      some (statement.normal, .sign .semicolon :: rest) := by
  cases statement with
  | simple statement =>
    have read := Simple.read stands rest
    simp only [tokens] at read ⊢
    unfold stmt?
    split
    · cases statement <;> simp_all [Simple.tokens]
    · cases statement <;> simp_all [Simple.tokens]
    · cases statement <;> simp_all [Simple.tokens]
    · rw [read]
      rfl
  | ifReturn condition value => exact stmt?_if stands.1 stands.2 _
  | ifFound map key => rfl
  | switch arms otherwise =>
    have read := arms?_tokens stands.1 stands.2 (.sign .semicolon :: rest)
    simp only [tokens, List.cons_append, List.append_assoc, List.nil_append, stmt?, read]
    rfl

theorem stmts?_tokens {body : List Stmt} (stands : ∀ statement ∈ body, statement.Stands alphabet)
    (rest : List Token) :
    stmts? (body.flatMap (fun statement => statement.tokens ++ [.sign .semicolon]) ++
        .sign .closeBrace :: rest) = some (body.map Stmt.normal, rest) := by
  induction body with
  | nil => rw [stmts?.eq_def]; rfl
  | cons statement body ih =>
    obtain ⟨own, others⟩ := List.forall_mem_cons.mp stands
    have first := Stmt.read own (body.flatMap (fun statement =>
      statement.tokens ++ [.sign .semicolon]) ++ .sign .closeBrace :: rest)
    have open? (rest tail : List Token) : statement.tokens ++ rest ≠ .sign .closeBrace :: tail := by
      cases statement with
      | simple statement => cases statement <;> simp [Stmt.tokens, Simple.tokens]
      | _ => simp [Stmt.tokens]
    have shorter := length_lt_append statement.tokens (.sign .semicolon) (body.flatMap
      (fun statement => statement.tokens ++ [.sign .semicolon]) ++ .sign .closeBrace :: rest)
    simp only [List.flatMap_cons, List.append_assoc, List.cons_append, List.nil_append]
    rw [stmts?.eq_def]
    split
    · rename_i same
      exact absurd same (open? _ _)
    · simp only [first, ih others, shorter, if_true, Option.bind_eq_bind, Option.bind_some]
      rfl

theorem definitions?_tokens {definitions : List (String × Expr)}
    (stands : ∀ definition ∈ definitions, definition.2.Stands alphabet 1) (rest : List Token) :
    definitions? (definitions.flatMap definitionTokens ++ .sign .closeParen :: rest) =
      some (definitions.map (Prod.map id Expr.normal), rest) := by
  induction definitions with
  | nil => rw [definitions?.eq_def]; rfl
  | cons definition definitions ih =>
    obtain ⟨own, others⟩ := List.forall_mem_cons.mp stands
    rw [definitions?.eq_def]
    simp only [List.flatMap_cons, definitionTokens, List.cons_append, List.append_assoc,
      List.nil_append, Expr.read own (.sign .semicolon :: _) rfl, length_lt_append, if_true,
      ih others, Option.bind_eq_bind, Option.bind_some]
    rfl

theorem entries?_tokens {entries : List (Int × Expr)}
    (stands : ∀ entry ∈ entries, entry.2.Stands alphabet 1) (rest : List Token) :
    entries? (entries.flatMap entryTokens ++ .sign .closeBrace :: rest) =
      some (entries.map (Prod.map id Expr.normal), rest) := by
  induction entries with
  | nil => rw [entries?.eq_def]; rfl
  | cons entry entries ih =>
    obtain ⟨own, others⟩ := List.forall_mem_cons.mp stands
    have open? (rest tail : List Token) :
        Expr.integerTokens entry.1 ++ rest ≠ .sign .closeBrace :: tail := by
      unfold Expr.integerTokens
      split <;> simp
    rw [entries?.eq_def]
    simp only [List.flatMap_cons, entryTokens, List.cons_append, List.append_assoc,
      List.nil_append]
    split
    · rename_i same
      exact absurd same (open? _ _)
    · simp only [integer?_tokens, Expr.read own (.sign .comma :: _) rfl, ih others,
        Option.bind_eq_bind, Option.bind_some]
      rw [if_pos (by simp only [List.length_append, List.length_cons]; omega)]
      rfl

theorem Item.read {item : Item} (stands : item.Stands alphabet) (rest : List Token) :
    item? (item.tokens ++ .sign .semicolon :: rest) =
      some (item.normal, .sign .semicolon :: rest) := by
  cases item with
  | const name value =>
    have read := Expr.read stands.2 (.sign .semicolon :: rest) rfl
    simp only [tokens, List.cons_append, item?, read]
    rfl
  | consts definitions | vars definitions =>
    have read := definitions?_tokens (fun definition member => (stands definition member).2)
      (.sign .semicolon :: rest)
    simp only [tokens, List.cons_append, List.append_assoc, List.nil_append, item?, read]
    rfl
  | var name value =>
    have read := Expr.read stands.2 (.sign .semicolon :: rest) rfl
    simp only [tokens, List.cons_append]
    unfold item?
    split
    · simp_all
    · simp_all
    · simp_all
    · -- No expression begins with the keyword of a map.
      rename_i same
      simp only [List.cons.injEq] at same
      rw [same.2.2.2, expr?, primary?.eq_def] at read
      cases read
    · simp_all [normal]
    · simp_all
    · simp_all
  | mapVar name keyType entries =>
    have read := entries?_tokens stands.2.2 (.sign .semicolon :: rest)
    simp only [tokens, List.cons_append, List.append_assoc, List.nil_append, item?, read]
    rfl
  | stringMethod typeName body =>
    have read := stmts?_tokens stands.2 (.sign .semicolon :: rest)
    simp only [tokens, List.cons_append, List.append_assoc, List.nil_append, item?, read]
    rfl
  | _ => cases stands

theorem items?_tokens {items : List Item} (stands : ∀ item ∈ items, item.Stands alphabet) :
    items? (items.flatMap fun item => item.tokens ++ [.sign .semicolon]) =
      some (items.map Item.normal) := by
  induction items with
  | nil => rw [items?.eq_def]; rfl
  | cons item items ih =>
    obtain ⟨own, others⟩ := List.forall_mem_cons.mp stands
    have first := Item.read own (items.flatMap fun item => item.tokens ++ [.sign .semicolon])
    have shorter := length_lt_append item.tokens (.sign .semicolon)
      (items.flatMap fun item => item.tokens ++ [.sign .semicolon])
    simp only [List.flatMap_cons, List.append_assoc, List.singleton_append]
    rw [items?.eq_def]
    split
    · simp_all
    · simp only [first, ih others, shorter, if_true, Option.bind_eq_bind, Option.bind_some]
      rfl

end EnumNames.Go
