import EnumNames.Proofs.Go.Evaluation
import EnumNames.Proofs.Go.ItemReading
import EnumNames.Proofs.Go.Typing

/-! Layout means nothing: a tree and its form without layout are accepted together and do the
same. -/
namespace EnumNames.Go

theorem operand?_normal (scope : Scope Operand) (e : Expr) :
    operand? scope e.normal = operand? scope e := by
  induction e with
  | wide joining left right l r | tight joining left right l r => simp only [Expr.normal, operand?, l, r]
  | apply function argument ih | applyWith function argument n ih =>
    simp only [Expr.normal, operand?, ih]
  | index operand place o p => simp only [Expr.normal, operand?, o, p]
  | slice operand start stop o l r => simp only [Expr.normal, operand?, o, l, r]
  | _ => rfl

theorem evaluate_normal (scope : Scope Value) (e : Expr) :
    evaluate scope e.normal = evaluate scope e := by
  induction e with
  | wide joining left right l r | tight joining left right l r => simp only [Expr.normal, evaluate, l, r]
  | apply function argument ih | applyWith function argument n ih =>
    simp only [Expr.normal, evaluate, ih]
  | index operand place o p => simp only [Expr.normal, evaluate, o, p]
  | slice operand start stop o l r => simp only [Expr.normal, evaluate, o, l, r]
  | _ => rfl

theorem Simple.accepted_normal (scope : Scope Operand) (statement : Simple) :
    statement.normal.accepted scope = statement.accepted scope := by
  cases statement <;> simp only [normal, accepted, returnsString, operand?_normal]

theorem Simple.terminates_normal (statement : Simple) :
    statement.normal.terminates = statement.terminates := by
  cases statement <;> rfl

theorem Simple.run_normal (scope : Scope Value) (statement : Simple) :
    statement.normal.run scope = statement.run scope := by
  cases statement <;> simp only [normal, run, runReturn, evaluate_normal]

theorem runAll_map {σ τ : Type} {run : Scope Value → σ → Except Fault Outcome}
    {other : Scope Value → τ → Except Fault Outcome} {f : τ → σ}
    (same : ∀ scope statement, run scope (f statement) = other scope statement)
    (scope : Scope Value) (statements : List τ) :
    runAll run scope (statements.map f) = runAll other scope statements := by
  induction statements generalizing scope with
  | nil => rfl
  | cons statement statements ih => simp only [List.map_cons, runAll, same, ih]

theorem runCases_normal (scope : Scope Value) (otherwise : Expr) (arms : List Arm) :
    runCases scope otherwise.normal (arms.map Arm.normal) = runCases scope otherwise arms := by
  induction arms with
  | nil => simp only [List.map_nil, runCases, runReturn, evaluate_normal]
  | cons arm arms ih =>
    simp only [List.map_cons, runCases, Arm.normal, evaluate_normal, ih,
      runAll_map Simple.run_normal]

namespace Stmt

theorem accepted_normal (scope : Scope Operand) (statement : Stmt) :
    statement.normal.accepted scope = statement.accepted scope := by
  cases statement with
  | simple statement => exact statement.accepted_normal scope
  | switch arms otherwise =>
    simp only [normal, accepted, isCondition, returnsString, operand?_normal, List.all_map,
      Function.comp_def, Arm.normal, Simple.accepted_normal]
  | _ => simp only [normal, accepted, isCondition, returnsString, operand?_normal]

theorem terminates_normal (statement : Stmt) : statement.normal.terminates = statement.terminates := by
  cases statement with
  | simple statement => exact statement.terminates_normal
  | switch arms otherwise =>
    simp only [normal, terminates, List.all_map, Function.comp_def, Arm.normal,
      List.getLast?_map, Option.any_map, Simple.terminates_normal]
  | _ => rfl

theorem run_normal (scope : Scope Value) (statement : Stmt) :
    statement.normal.run scope = statement.run scope := by
  cases statement with
  | simple statement => exact statement.run_normal scope
  | switch arms otherwise => exact runCases_normal scope otherwise arms
  | _ => simp only [normal, run, runReturn, evaluate_normal]

end Stmt

theorem declareConst?_normal (scope : Scope Operand) (definition : String × Expr) :
    declareConst? scope (definition.map id Expr.normal) = declareConst? scope definition := by
  simp only [declareConst?, Prod.map, operand?_normal, id]

theorem declareVar?_normal (scope : Scope Operand) (definition : String × Expr) :
    declareVar? scope (definition.map id Expr.normal) = declareVar? scope definition := by
  simp only [declareVar?, Prod.map, operand?_normal, id]

theorem define_normal (scope : Scope Value) (definition : String × Expr) :
    define scope (definition.map id Expr.normal) = define scope definition := by
  simp only [define, Prod.map, evaluate_normal, id]

theorem entry_normal (scope : Scope Value) (pair : Int × Expr) :
    entry scope (pair.map id Expr.normal) = entry scope pair := by
  simp only [entry, Prod.map, evaluate_normal, id]

theorem areEntries_normal (scope : Scope Operand) (key : IntType) (entries : List (Int × Expr)) :
    areEntries scope key (entries.map (Prod.map id Expr.normal)) = areEntries scope key entries := by
  simp only [areEntries, List.map_map, List.all_map, Function.comp_def, Prod.map, returnsString,
    operand?_normal, id]

theorem isBody_normal (scope : Scope Operand) (body : List Stmt) :
    isBody scope (body.map Stmt.normal) = isBody scope body := by
  simp only [isBody, List.all_map, Function.comp_def, List.getLast?_map, Option.any_map,
    Stmt.accepted_normal, Stmt.terminates_normal]

namespace Item

theorem declareItem?_normal (scope : Scope Operand) (item : Item) :
    declareItem? scope item.normal = declareItem? scope item := by
  cases item with
  | const name value => exact declareConst?_normal scope (name, value)
  | var name value => exact declareVar?_normal scope (name, value)
  | consts definitions =>
    simp only [normal, declareItem?, List.foldlM_map, declareConst?_normal]
  | vars definitions => simp only [normal, declareItem?, List.foldlM_map, declareVar?_normal]
  | mapVar name keyType entries =>
    simp only [normal, declareItem?, areEntries_normal]
  | stringMethod typeName body =>
    simp only [normal, declareItem?, isBody_normal]
  | _ => rfl

theorem load_normal (scope : Scope Value) (item : Item) : load scope item.normal = load scope item := by
  cases item with
  | const name value | var name value => exact define_normal scope (name, value)
  | consts definitions | vars definitions =>
    simp only [normal, load, List.foldlM_map, define_normal]
  | mapVar name keyType entries =>
    simp only [normal, load, List.mapM_map, entry_normal, Function.comp_def]
  | _ => rfl

theorem methodOf?_normal (item : Item) : methodOf? item.normal = methodOf? item := by
  cases item <;> rfl

theorem body?_normal (typeName : String) (item : Item) :
    body? typeName item.normal = (body? typeName item).map (List.map Stmt.normal) := by
  cases item with
  | stringMethod name body =>
    simp only [normal, body?]
    split <;> rfl
  | _ => rfl

end Item

theorem accepts_normal (type : IntType) (items : List Item) :
    accepts type (items.map Item.normal) = accepts type items := by
  simp only [accepts, List.filterMap_map, Function.comp_def, Item.methodOf?_normal,
    List.foldlM_map, Item.declareItem?_normal]

theorem callString_normal (type : IntType) (items : List Item) (value : Int) :
    callString type (items.map Item.normal) value = callString type items value := by
  have found : (items.map Item.normal).findSome? (body? type.name) =
      (items.findSome? (body? type.name)).map (List.map Stmt.normal) := by
    rw [List.findSome?_map]
    simp only [Function.comp_def, Item.body?_normal]
    induction items with
    | nil => rfl
    | cons item items ih =>
      simp only [List.findSome?_cons, ih]
      cases body? type.name item <;> rfl
  simp only [callString, List.foldlM_map, Item.load_normal, found]
  cases items.findSome? (body? type.name) with
  | none => rfl
  | some body => simp only [Option.map_some, runAll_map Stmt.run_normal]

end EnumNames.Go
