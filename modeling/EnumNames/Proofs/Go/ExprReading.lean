import EnumNames.Proofs.Go.Lexing
import EnumNames.Proofs.Go.Lines
import EnumNames.Proofs.Go.Reader

/-! Reading what is written gives back the tree, in its form without layout. -/
namespace EnumNames.Go
variable {alphabet : Alphabet}

/-- A word that is no keyword. -/
def Alphabet.IsName (alphabet : Alphabet) (word : String) : Prop :=
  alphabet.IsWord word.toList ∧ keywords.lookup word = none

theorem Alphabet.IsName.word_eq {name : String} (named : alphabet.IsName name) :
    Go.word name.toList = .name name := by
  simp [word, named.2]

namespace Expr

/-- The functions of packages that name tables call. -/
def selection : String → List Token
  | "strconv.FormatInt" => [.name "strconv", .sign .dot, .name "FormatInt"]
  | "strconv.FormatUint" => [.name "strconv", .sign .dot, .name "FormatUint"]
  | _ => []

/-- The tokens of numbers with commas between them. -/
def elementTokens : List Nat → List Token
  | [] => []
  | [n] => [.number n]
  | n :: elements => .number n :: .sign .comma :: elementTokens elements

def integerTokens (value : Int) : List Token :=
  if value < 0 then [.sign (.operator .sub), .number value.natAbs] else [.number value.natAbs]

def tokens : Expr → List Token
  | .name identifier => [.name identifier]
  | .int value => integerTokens value
  | .string value | .verbatim value => [.literal value]
  | .array bits elements =>
    .sign .openBracket :: .sign .ellipsis :: .sign .closeBracket ::
      .name ("uint" ++ toString bits) :: .sign .openBrace ::
      (elementTokens elements ++ [.sign .closeBrace])
  | .wide joining left right | .tight joining left right =>
    left.tokens ++ .sign (.operator joining) :: right.tokens
  | .apply function argument =>
    .name function :: .sign .openParen :: (argument.tokens ++ [.sign .closeParen])
  | .applyWith function argument n =>
    selection function ++ .sign .openParen ::
      (argument.tokens ++ [.sign .comma, .number n, .sign .closeParen])
  | .index operand place =>
    operand.tokens ++ .sign .openBracket :: (place.tokens ++ [.sign .closeBracket])
  | .slice operand start stop =>
    operand.tokens ++ .sign .openBracket :: (start.tokens ++ .sign .colon ::
      (stop.tokens ++ [.sign .closeBracket]))

/-- The tree without a trace of layout. -/
def normal : Expr → Expr
  | .name identifier => .name identifier
  | .int value => .int value
  | .string value | .verbatim value => .string value
  | .array bits elements => .array bits elements
  | .wide joining left right | .tight joining left right => .wide joining left.normal right.normal
  | .apply function argument => .apply function argument.normal
  | .applyWith function argument n => .applyWith function argument.normal n
  | .index operand place => .index operand.normal place.normal
  | .slice operand start stop => .slice operand.normal start.normal stop.normal

/-- An expression that stands without parentheses where operators bind as tightly as a level says. -/
def Stands (alphabet : Alphabet) (level : Nat) : Expr → Prop
  | .name identifier => alphabet.IsName identifier
  | .int _ | .string _ => True
  | .verbatim characters => ∀ c ∈ characters.toList, c ≠ '"' ∧ c ≠ '\\' ∧ c ≠ '\n'
  | .array bits _ => bits ∈ [8, 16, 32]
  | .wide joining left right =>
    level ≤ joining.level ∧ left.Stands alphabet joining.level ∧
      right.Stands alphabet (joining.level + 1)
  | .tight joining left right =>
    level ≤ joining.level ∧ left.Stands alphabet joining.level ∧ ∃ n : Nat, right = .int n
  | .apply function argument => alphabet.IsName function ∧ argument.Stands alphabet 1
  | .applyWith function argument _ =>
    function ∈ ["strconv.FormatInt", "strconv.FormatUint"] ∧ argument.Stands alphabet 1
  | .index operand place =>
    (∃ identifier, operand = .name identifier ∧ alphabet.IsName identifier) ∧
      place.Stands alphabet 1
  | .slice operand start stop =>
    (∃ identifier, operand = .name identifier ∧ alphabet.IsName identifier) ∧
      start.Stands alphabet 1 ∧ stop.Stands alphabet 1 ∧ stop.text.toList.head?.any isApart

end Expr

/-- Whether an expression with operators from a level on ends in front of some tokens. -/
def closes (level : Nat) : List Token → Bool
  | .sign (.operator joining) :: _ => joining.level ≤ level
  | .sign .openParen :: _ | .sign .openBracket :: _ | .sign .dot :: _ => false
  | _ => true

theorem operators?_stop {level : Nat} {left : Expr} {rest : List Token}
    (stops : ∀ joining, rest.head? = some (.sign (.operator joining)) → joining.level < level) :
    operators? level left rest = some (left, rest) := by
  rw [operators?.eq_def]
  split
  · rename_i joining rest
    have less := stops joining rfl
    rw [if_neg (by omega)]
  · rfl

theorem operators?_cons {level : Nat} {left right : Expr} {joining : Operator} {tokens rest : List Token}
    (binds : level ≤ joining.level) (read : expr? (joining.level + 1) tokens = some (right, rest))
    (shorter : rest.length < tokens.length) :
    operators? level left (.sign (.operator joining) :: tokens) =
      operators? level (.wide joining left right) rest := by
  rw [operators?.eq_def]
  simp only [binds, if_true, read, shorter, Option.bind_eq_bind, Option.bind_some]

theorem expr?_primary {level : Nat} {tokens rest : List Token} {value : Expr}
    (read : primary? tokens = some (value, rest)) (shorter : rest.length < tokens.length) :
    expr? level tokens = operators? level value rest := by
  rw [expr?, read]
  simp only [shorter, if_true, Option.bind_eq_bind, Option.bind_some]

theorem elements?_tokens (elements : List Nat) (rest : List Token) :
    elements? (Expr.elementTokens elements ++ .sign .closeBrace :: rest) = some (elements, rest) := by
  induction elements with
  | nil => rfl
  | cons n elements ih =>
    cases elements with
    | nil => rfl
    | cons m elements =>
      simp only [Expr.elementTokens, List.cons_append, elements?] at ih ⊢
      simp only [ih, Option.bind_eq_bind, Option.bind_some]
      rfl

theorem elementBits?_eq {bits : Nat} (known : bits ∈ [8, 16, 32]) :
    elementBits? ("uint" ++ toString bits) = some bits := by
  revert bits
  decide

theorem primary?_integer (value : Int) (rest : List Token) :
    primary? (Expr.integerTokens value ++ rest) = some (.int value, rest) := by
  unfold Expr.integerTokens
  split
  · rw [primary?.eq_def]
    simp only [List.cons_append, List.nil_append]
    have same : -(value.natAbs : Int) = value := by omega
    rw [same]
  · rw [primary?.eq_def]
    simp only [List.cons_append, List.nil_append]
    have same : (value.natAbs : Int) = value := by omega
    rw [same]

theorem primary?_name {identifier : String} {level : Nat} {rest : List Token}
    (ends : closes level rest) :
    primary? (.name identifier :: rest) = some (.name identifier, rest) := by
  rw [primary?.eq_def]
  split <;> simp_all [closes]

theorem closes_mono {least level : Nat} {rest : List Token} (below : least ≤ level)
    (ends : closes least rest) : closes level rest := by
  unfold closes at ends ⊢
  split at ends
  · simp only [decide_eq_true_eq] at ends ⊢
    omega
  all_goals simp_all

theorem operators?_of_closes {least level : Nat} {left : Expr} {rest : List Token}
    (below : least < level) (ends : closes least rest) :
    operators? level left rest = some (left, rest) := by
  apply operators?_stop
  intro joining head
  cases rest with
  | nil => cases head
  | cons token rest =>
    rw [List.head?_cons, Option.some.injEq] at head
    subst head
    simp only [closes, decide_eq_true_eq] at ends
    omega

/-- What goes on with operators is read in full in front of what ends it. -/
theorem expr?_eq_some {least level : Nat} {tokens rest : List Token} {value : Expr}
    (read : expr? level (tokens ++ rest) = operators? level value rest) (below : least < level)
    (ends : closes least rest) : expr? level (tokens ++ rest) = some (value, rest) := by
  rw [read]
  exact operators?_of_closes below ends

/-- An operator between what its two operands are read as. -/
theorem expr?_operator {joining : Operator} {least level : Nat} {left right : Expr}
    {leftTokens rightTokens rest : List Token}
    (leftRead : ∀ rest, closes joining.level rest →
      expr? least (leftTokens ++ rest) = operators? least left rest)
    (rightRead : ∀ rest, closes (joining.level + 1) rest →
      expr? (joining.level + 1) (rightTokens ++ rest) = operators? (joining.level + 1) right rest)
    (below : least ≤ level) (binds : level ≤ joining.level) (ends : closes level rest)
    (written : rightTokens ≠ []) :
    expr? least (leftTokens ++ .sign (.operator joining) :: rightTokens ++ rest) =
      operators? least (.wide joining left right) rest := by
  have read : expr? (joining.level + 1) (rightTokens ++ rest) = some (right, rest) :=
    expr?_eq_some (rightRead rest (closes_mono (by omega) ends)) (by omega) ends
  rw [List.append_assoc, List.cons_append, leftRead _ (by simp [closes])]
  have shorter : rest.length < (rightTokens ++ rest).length := by
    rw [List.length_append]
    exact Nat.lt_add_of_pos_left (List.length_pos_of_ne_nil written)
  exact operators?_cons (by omega) read shorter

namespace Expr

theorem integerTokens_ne_nil (value : Int) : integerTokens value ≠ [] := by
  unfold integerTokens
  split <;> simp

/-- No expression is written as nothing. -/
theorem tokens_ne_nil (e : Expr) : e.tokens ≠ [] := by
  cases e with
  | int value => exact integerTokens_ne_nil value
  | _ => simp [tokens]

theorem length_lt_tokens (e : Expr) (rest : List Token) :
    rest.length < (e.tokens ++ rest).length := by
  rw [List.length_append]
  exact Nat.lt_add_of_pos_left (List.length_pos_of_ne_nil e.tokens_ne_nil)

theorem primary?_array {bits : Nat} (known : bits ∈ [8, 16, 32]) (elements : List Nat)
    (rest : List Token) :
    primary? ((array bits elements).tokens ++ rest) = some (array bits elements, rest) := by
  rw [primary?.eq_def]
  simp only [tokens, List.cons_append, List.append_assoc, List.nil_append, elementBits?_eq known,
    elements?_tokens, Option.bind_eq_bind, Option.bind_some]
  rfl

theorem primary?_apply (function : String) {argument value : Expr} {rest : List Token}
    (read : expr? 1 (argument.tokens ++ .sign .closeParen :: rest) =
      some (value, .sign .closeParen :: rest)) :
    primary? ((apply function argument).tokens ++ rest) = some (apply function value, rest) := by
  rw [primary?.eq_def]
  simp only [tokens, List.cons_append, List.append_assoc, List.nil_append, read,
    Option.bind_eq_bind, Option.bind_some]
  rfl

theorem primary?_applyWith {function : String}
    (known : function ∈ ["strconv.FormatInt", "strconv.FormatUint"]) {argument value : Expr} {n : Nat}
    {rest : List Token} (read : expr? 1 (argument.tokens ++ .sign .comma :: .number n ::
      .sign .closeParen :: rest) = some (value, .sign .comma :: .number n :: .sign .closeParen :: rest)) :
    primary? ((applyWith function argument n).tokens ++ rest) =
      some (applyWith function value n, rest) := by
  simp only [List.mem_cons, List.not_mem_nil, or_false] at known
  rcases known with rfl | rfl
  all_goals
    rw [primary?.eq_def]
    simp only [tokens, selection, List.cons_append, List.append_assoc, List.nil_append, read,
      Option.bind_eq_bind, Option.bind_some]
    rfl

theorem primary?_index (identifier : String) {place value : Expr} {rest : List Token}
    (read : expr? 1 (place.tokens ++ .sign .closeBracket :: rest) =
      some (value, .sign .closeBracket :: rest)) :
    primary? ((index (name identifier) place).tokens ++ rest) =
      some (index (name identifier) value, rest) := by
  rw [primary?.eq_def]
  simp only [tokens, List.cons_append, List.append_assoc, List.nil_append, read,
    Option.bind_eq_bind, Option.bind_some]
  rfl

theorem primary?_slice (identifier : String) {start first stop last : Expr} {rest : List Token}
    (startRead : ∀ rest, expr? 1 (start.tokens ++ .sign .colon :: rest) =
      some (first, .sign .colon :: rest))
    (stopRead : expr? 1 (stop.tokens ++ .sign .closeBracket :: rest) =
      some (last, .sign .closeBracket :: rest)) :
    primary? ((slice (name identifier) start stop).tokens ++ rest) =
      some (slice (name identifier) first last, rest) := by
  rw [primary?.eq_def]
  simp only [tokens, List.cons_append, List.append_assoc, List.nil_append, startRead, stopRead,
    Option.bind_eq_bind, Option.bind_some]
  -- What the start and the colon take up.
  have shorter : (stop.tokens ++ .sign .closeBracket :: rest).length <
      (start.tokens ++ .sign .colon :: (stop.tokens ++ .sign .closeBracket :: rest)).length :=
    Nat.lt_of_succ_lt (length_lt_tokens start (.sign .colon :: _))
  rw [if_pos shorter]
  rfl

theorem expr?_tokens {e : Expr} {level least : Nat} (below : least ≤ level)
    (stands : e.Stands alphabet level) {rest : List Token} (ends : closes level rest) :
    expr? least (e.tokens ++ rest) = operators? least e.normal rest := by
  induction e generalizing level least rest with
  | name identifier => exact expr?_primary (primary?_name ends) (length_lt_tokens ..)
  | int value =>
    exact expr?_primary (primary?_integer value rest) (length_lt_tokens (int value) rest)
  | string value | verbatim value =>
    refine expr?_primary ?_ (length_lt_tokens ..)
    rw [primary?.eq_def]
    rfl
  | array bits elements =>
    exact expr?_primary (primary?_array stands elements rest) (length_lt_tokens ..)
  | wide joining left right l r =>
    obtain ⟨binds, leftStands, rightStands⟩ := stands
    exact expr?_operator (fun rest ends => l (by omega) leftStands ends)
      (fun rest ends => r (Nat.le_refl _) rightStands ends) below binds ends
      right.tokens_ne_nil
  | tight joining left right l r =>
    obtain ⟨binds, leftStands, n, rfl⟩ := stands
    exact expr?_operator (fun rest ends => l (by omega) leftStands ends)
      (fun rest ends => r (Nat.le_refl (joining.level + 1)) trivial ends) below binds ends
      (integerTokens_ne_nil n)
  | apply function argument ih =>
    have read : expr? 1 (argument.tokens ++ .sign .closeParen :: rest) =
        some (argument.normal, .sign .closeParen :: rest) :=
      expr?_eq_some (ih (Nat.le_refl 1) stands.2 rfl) Nat.one_pos rfl
    exact expr?_primary (primary?_apply function read) (length_lt_tokens ..)
  | applyWith function argument n ih =>
    have read : expr? 1 (argument.tokens ++ .sign .comma :: .number n :: .sign .closeParen :: rest) =
        some (argument.normal, .sign .comma :: .number n :: .sign .closeParen :: rest) :=
      expr?_eq_some (ih (Nat.le_refl 1) stands.2 rfl) Nat.one_pos rfl
    exact expr?_primary (primary?_applyWith stands.1 read) (length_lt_tokens ..)
  | index operand place o ih =>
    obtain ⟨⟨identifier, rfl, _⟩, placeStands⟩ := stands
    have read : expr? 1 (place.tokens ++ .sign .closeBracket :: rest) =
        some (place.normal, .sign .closeBracket :: rest) :=
      expr?_eq_some (ih (Nat.le_refl 1) placeStands rfl) Nat.one_pos rfl
    exact expr?_primary (primary?_index identifier read) (length_lt_tokens ..)
  | slice operand start stop o l r =>
    obtain ⟨⟨identifier, rfl, _⟩, startStands, stopStands, _⟩ := stands
    have startRead (rest : List Token) : expr? 1 (start.tokens ++ .sign .colon :: rest) =
        some (start.normal, .sign .colon :: rest) :=
      expr?_eq_some (l (Nat.le_refl 1) startStands rfl) Nat.one_pos rfl
    have stopRead : expr? 1 (stop.tokens ++ .sign .closeBracket :: rest) =
        some (stop.normal, .sign .closeBracket :: rest) :=
      expr?_eq_some (r (Nat.le_refl 1) stopStands rfl) Nat.one_pos rfl
    exact expr?_primary (primary?_slice identifier startRead stopRead) (length_lt_tokens ..)

/-- An expression is read back in front of all that does not go on with it. -/
theorem read {e : Expr} (stands : e.Stands alphabet 1) (rest : List Token) (ends : closes 0 rest) :
    expr? 1 (e.tokens ++ rest) = some (e.normal, rest) :=
  expr?_eq_some (expr?_tokens (Nat.le_refl 1) stands (closes_mono (Nat.zero_le 1) ends))
    Nat.one_pos ends

theorem isName_element {bits : Nat} (known : bits ∈ [8, 16, 32]) :
    alphabet.IsName ("uint" ++ toString bits) := by
  simp only [List.mem_cons, List.not_mem_nil, or_false] at known
  rcases known with rfl | rfl | rfl <;> exact ⟨isWord_ascii (by decide) (by decide), by decide⟩

theorem selection_eq (alphabet : Alphabet) {function : String}
    (known : function ∈ ["strconv.FormatInt", "strconv.FormatUint"]) :
    ∃ package name, function = package ++ "." ++ name ∧ alphabet.IsName package ∧
      alphabet.IsName name ∧ selection function = [.name package, .sign .dot, .name name] := by
  simp only [List.mem_cons, List.not_mem_nil, or_false] at known
  rcases known with rfl | rfl
  · exact ⟨"strconv", "FormatInt", by decide, ⟨isWord_ascii (by decide) (by decide), by decide⟩,
      ⟨isWord_ascii (by decide) (by decide), by decide⟩, rfl⟩
  · exact ⟨"strconv", "FormatUint", by decide, ⟨isWord_ascii (by decide) (by decide), by decide⟩,
      ⟨isWord_ascii (by decide) (by decide), by decide⟩, rfl⟩

theorem lexes_integer (value : Int) :
    Lexes alphabet (toString value).toList (integerTokens value) := by
  obtain ⟨n, rfl, written⟩ | ⟨n, rfl, positive, written⟩ := toString_int_cases value
  · refine Piece.lexes [.number n] (by simp [Piece.Sound]) (by simp) (by simp) ?_ ?_
    · simp [Piece.text, written]
    · simp [Piece.tokens, integerTokens]
  · refine Piece.lexes [.sign (.operator .sub), .number n] (by simp [Piece.Sound])
      (by simp [Piece.fits]) (by simp) ?_ ?_
    · simp [Piece.text, written, Sign.characters, Operator.sign]
    · simp [Piece.tokens, integerTokens, positive]

theorem lexes_elements (elements : List Nat) :
    Lexes alphabet (", ".intercalate (elements.map toString)).toList (elementTokens elements) := by
  induction elements with
  | nil => exact Piece.lexes [] (by simp) (by simp) (by simp) rfl rfl
  | cons n elements ih =>
    cases elements with
    | nil =>
      exact Piece.lexes [.number n] (by simp [Piece.Sound]) (by simp) (by simp)
        (by simp [Piece.text]) (by simp [Piece.tokens, elementTokens])
    | cons m elements =>
      refine Piece.lexes [.number n, .sign .comma, .blank ' ', .part _ (elementTokens (m :: elements))]
        (by simpa [Piece.Sound, isBlank] using ih) (by simp [Piece.fits]) (by simp) ?_ ?_
      · simp [Piece.text, Sign.characters]
      · simp [Piece.tokens, elementTokens]

/-- An expression as a part of a text. -/
abbrev piece (e : Expr) : Piece := .part e.text.toList e.tokens

theorem lexes {e : Expr} {level : Nat} (stands : e.Stands alphabet level) :
    Lexes alphabet e.text.toList e.tokens := by
  induction e generalizing level with
  | name identifier =>
    refine Piece.lexes [.word identifier] ?_ (by simp) (by simp) ?_ ?_
    · simpa [Piece.Sound] using stands.1
    · simp [Piece.text, text]
    · simp [Piece.tokens, tokens, stands.word_eq]
  | int value => exact lexes_integer value
  | string value =>
    refine Piece.lexes [.literal (value.toList.flatMap escape) value] ?_ (by simp) (by simp) ?_ ?_
    · simpa [Piece.Sound] using literal?_flatMap_escape value.toList
    · simp [Piece.text, text, toList_quoted]
    · simp [Piece.tokens, tokens]
  | verbatim characters =>
    refine Piece.lexes [.literal characters.toList characters] ?_ (by simp) (by simp) ?_ ?_
    · simpa [Piece.Sound] using literal?_verbatim stands
    · simp [Piece.text, text]
    · simp [Piece.tokens, tokens]
  | array bits elements =>
    have element : alphabet.IsName ("uint" ++ toString bits) := isName_element stands
    refine Piece.lexes [.sign .openBracket, .sign .ellipsis, .sign .closeBracket,
      .word ("uint" ++ toString bits), .sign .openBrace,
      .part (", ".intercalate (elements.map toString)).toList (elementTokens elements),
      .sign .closeBrace] ?_
      (by simp [Piece.fits, Sign.isWhole]) (by simp [Sign.isWhole]) ?_ ?_
    · simp only [List.forall_mem_cons, Piece.Sound]
      exact ⟨by decide, by decide, by decide, element.1, by decide, lexes_elements elements,
        by decide, by simp⟩
    · simp [Piece.text, text, Sign.characters]
    · simp only [List.flatMap_cons, List.flatMap_nil, Piece.tokens, element.word_eq, tokens,
        List.cons_append, List.nil_append]
  | wide joining left right l r =>
    obtain ⟨binds, leftStands, rightStands⟩ := stands
    refine Piece.lexes [left.piece, .blank ' ', .sign (.operator joining), .blank ' ',
      right.piece] ?_ (by simp [Piece.fits]) (by simp) ?_ ?_
    · simpa [Piece.Sound, isBlank] using ⟨l leftStands, r rightStands⟩
    · simp [Piece.text, text, Sign.characters]
    · simp [Piece.tokens, tokens]
  | tight joining left right l r =>
    obtain ⟨binds, leftStands, n, rfl⟩ := stands
    refine Piece.lexes [left.piece, .sign (.operator joining), .number n] ?_
      (by simp [Piece.fits]) (by simp) ?_ ?_
    · simpa [Piece.Sound] using l leftStands
    · have digits : toString (n : Int) = toString n := rfl
      simp [Piece.text, text, Sign.characters, digits]
    · simp [Piece.tokens, tokens, integerTokens]
  | apply function argument ih =>
    refine Piece.lexes [.word function, .sign .openParen, argument.piece,
      .sign .closeParen] ?_ (by simp [Piece.fits, Sign.isWhole]) (by simp [Sign.isWhole]) ?_ ?_
    · simpa [Piece.Sound] using ⟨stands.1.1, ih stands.2⟩
    · simp [Piece.text, text, Sign.characters]
    · simp [Piece.tokens, tokens, stands.1.word_eq]
  | applyWith function argument n ih =>
    obtain ⟨known, argumentStands⟩ := stands
    obtain ⟨package, name, rfl, packageNamed, named, selected⟩ := selection_eq alphabet known
    refine Piece.lexes [.word package, .sign .dot, .word name, .sign .openParen,
      argument.piece, .sign .comma, .blank ' ', .number n, .sign .closeParen] ?_
      (by simp [Piece.fits, Sign.isWhole]) (by simp [Sign.isWhole]) ?_ ?_
    · simpa [Piece.Sound, isBlank] using ⟨packageNamed.1, named.1, ih argumentStands⟩
    · simp [Piece.text, text, Sign.characters]
    · simp [Piece.tokens, tokens, packageNamed.word_eq, named.word_eq, selected]
  | index operand place o ih =>
    obtain ⟨⟨identifier, rfl, named⟩, placeStands⟩ := stands
    refine Piece.lexes [.word identifier, .sign .openBracket, place.piece,
      .sign .closeBracket] ?_ (by simp [Piece.fits, Sign.isWhole]) (by simp [Sign.isWhole]) ?_ ?_
    · simpa [Piece.Sound] using ⟨named.1, ih placeStands⟩
    · simp [Piece.text, text, Sign.characters]
    · simp [Piece.tokens, tokens, named.word_eq]
  | slice operand start stop o l r =>
    obtain ⟨⟨identifier, rfl, named⟩, startStands, stopStands, apart⟩ := stands
    refine Piece.lexes [.word identifier, .sign .openBracket, start.piece, .sign .colon,
      stop.piece, .sign .closeBracket] ?_
      (by simpa [Piece.fits, Sign.isWhole] using apart)
      (by simp [Sign.isWhole]) ?_ ?_
    · simpa [Piece.Sound] using ⟨named.1, l startStands, r stopStands⟩
    · simp [Piece.text, text, Sign.characters]
    · simp [Piece.tokens, tokens, named.word_eq]

end Expr

end EnumNames.Go
