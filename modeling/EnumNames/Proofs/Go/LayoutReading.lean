import EnumNames.Proofs.Go.ItemReading
import EnumNames.Proofs.Go.LineReading

/-! What is laid out in lines is read back: each statement and each declaration lexes to its
tokens, and so does a list of declarations with blank lines between them. -/
namespace EnumNames.Go
variable {alphabet : Alphabet}

theorem reads_return {value : Expr} (stands : value.Stands alphabet 1) :
    Reads alphabet ["return " ++ value.text]
      ((.keyword .return :: value.tokens) ++ [.sign .semicolon]) := by
  refine .ended [.word "return", .blank ' ', value.piece] ?_ (by simp [Piece.fits]) ?_ ?_
    (ends_cons value.ends_tokens)
  · simp only [List.forall_mem_cons, Piece.Sound]
    exact ⟨isWord_plain (by decide), rfl, Expr.lexes stands, by simp⟩
  · simp [Piece.text]
  · simp only [List.flatMap_cons, List.flatMap_nil, Piece.tokens, List.append_nil]
    rfl

theorem Simple.reads {statement : Simple} (stands : statement.Stands alphabet) :
    Reads alphabet [statement.text] (statement.tokens ++ [.sign .semicolon]) := by
  cases statement with
  | decrease identifier amount =>
    refine .ended [.word identifier, .blank ' ', .sign .decrease, .blank ' ',
      .part (toString amount).toList (Expr.integerTokens amount)] ?_ (by simp [Piece.fits]) ?_ ?_
      (ends_cons (ends_cons (Expr.ends_integerTokens amount)))
    · simp only [List.forall_mem_cons, Piece.Sound]
      exact ⟨stands.1, rfl, by decide, rfl, Expr.lexes_integer amount, by simp⟩
    · simp [Piece.text, text, Sign.characters]
    · simp only [List.flatMap_cons, List.flatMap_nil, Piece.tokens, List.append_nil,
        Alphabet.IsName.word_eq stands]
      rfl
  | ret value => exact reads_return stands

theorem Arm.reads {arm : Arm} (stands : arm.Stands alphabet) :
    Reads alphabet arm.lines arm.tokens := by
  have head : Reads alphabet ["case " ++ arm.condition.text ++ ":"]
      (.keyword .case :: (arm.condition.tokens ++ [.sign .colon])) := by
    refine .unended [.word "case", .blank ' ', arm.condition.piece, .sign .colon] ?_
      (by simp [Piece.fits]) ?_ ?_ (by simp [Token.ends, List.getLast?_cons])
    · simp only [List.forall_mem_cons, Piece.Sound]
      exact ⟨isWord_plain (by decide), rfl, Expr.lexes stands.1, by decide, by simp⟩
    · simp [Piece.text, Sign.characters]
    · simp only [List.flatMap_cons, List.flatMap_nil, Piece.tokens, List.append_nil]
      rfl
  have body : Reads alphabet (arm.body.map Simple.text)
      (arm.body.flatMap fun statement => statement.tokens ++ [.sign .semicolon]) :=
    .map fun statement member => Simple.reads (stands.2 statement member)
  have whole := head.append body.indent
  rw [List.map_map] at whole
  simpa [tokens, lines, Function.comp_def] using whole

theorem reads_closeBrace : Reads alphabet ["\x7d"] [.sign .closeBrace, .sign .semicolon] :=
  .ended [.sign .closeBrace] (by simp [Piece.Sound]) (by simp) rfl rfl rfl

theorem Stmt.reads {statement : Stmt} (stands : statement.Stands alphabet) :
    Reads alphabet statement.lines (statement.tokens ++ [.sign .semicolon]) := by
  cases statement with
  | simple statement => exact Simple.reads stands
  | ifReturn condition value =>
    have head : Reads alphabet ["if " ++ condition.text ++ " \x7b"]
        (.keyword .if :: (condition.tokens ++ [.sign .openBrace])) := by
      refine .unended [.word "if", .blank ' ', condition.piece, .blank ' ', .sign .openBrace] ?_
        (by simp [Piece.fits]) ?_ ?_ (by simp [Token.ends, List.getLast?_cons])
      · simp only [List.forall_mem_cons, Piece.Sound]
        exact ⟨isWord_plain (by decide), rfl, Expr.lexes stands.1, rfl, by decide, by simp⟩
      · simp [Piece.text, Sign.characters]
      · simp only [List.flatMap_cons, List.flatMap_nil, Piece.tokens, List.append_nil]
        rfl
    have whole := head.append ((reads_return stands.2).indent.append reads_closeBrace)
    simpa [tokens, lines] using whole
  | ifFound map key =>
    have head : Reads alphabet ["if str, ok := " ++ map ++ "[" ++ key ++ "]; ok \x7b"]
        [.keyword .if, .name "str", .sign .comma, .name "ok", .sign .define, .name map,
          .sign .openBracket, .name key, .sign .closeBracket, .sign .semicolon, .name "ok",
          .sign .openBrace] := by
      refine .unended [.word "if", .blank ' ', .word "str", .sign .comma, .blank ' ', .word "ok",
        .blank ' ', .sign .define, .blank ' ', .word map, .sign .openBracket, .word key,
        .sign .closeBracket, .sign .semicolon, .blank ' ', .word "ok", .blank ' ',
        .sign .openBrace] ?_ (by simp [Piece.fits, Sign.isWhole]) ?_ ?_ rfl
      · simp only [List.forall_mem_cons, Piece.Sound]
        exact ⟨isWord_plain (by decide), rfl, isWord_plain (by decide), by decide, rfl,
          isWord_plain (by decide), rfl, by decide, rfl, stands.1.1, by decide, stands.2.1,
          by decide, by decide, rfl, isWord_plain (by decide), rfl, by decide, by simp⟩
      · simp [Piece.text, Sign.characters]
      · simp only [List.flatMap_cons, List.flatMap_nil, Piece.tokens, stands.1.word_eq,
          stands.2.word_eq]
        rfl
    have inner : Reads alphabet ["return str"] [.keyword .return, .name "str", .sign .semicolon] := by
      refine .ended [.word "return", .blank ' ', .word "str"] ?_ (by simp [Piece.fits])
        (by decide) rfl rfl
      simp only [List.forall_mem_cons, Piece.Sound]
      exact ⟨isWord_plain (by decide), rfl, isWord_plain (by decide), by simp⟩
    have whole := head.append (inner.indent.append reads_closeBrace)
    simpa [tokens, lines] using whole
  | switch arms otherwise =>
    have head : Reads alphabet ["switch \x7b"] [.keyword .switch, .sign .openBrace] := by
      refine .unended [.word "switch", .blank ' ', .sign .openBrace] ?_ (by simp [Piece.fits])
        (by decide) rfl rfl
      simp only [List.forall_mem_cons, Piece.Sound]
      exact ⟨isWord_plain (by decide), rfl, by decide, by simp⟩
    have default : Reads alphabet ["default:"] [.keyword .default, .sign .colon] := by
      refine .unended [.word "default", .sign .colon] ?_ (by simp [Piece.fits]) (by decide) rfl rfl
      simp only [List.forall_mem_cons, Piece.Sound]
      exact ⟨isWord_plain (by decide), by decide, by simp⟩
    have cases := Reads.flatMap fun arm member => Arm.reads (stands.1 arm member)
    have whole := head.append (cases.append (default.append
      ((reads_return stands.2).indent.append reads_closeBrace)))
    simpa [tokens, lines] using whole

theorem reads_closeParen : Reads alphabet [")"] [.sign .closeParen, .sign .semicolon] :=
  .ended [.sign .closeParen] (by simp [Piece.Sound]) (by simp) rfl rfl rfl

theorem definitionTokens_reads {definition : String × Expr} (named : alphabet.IsName definition.1)
    (stands : definition.2.Stands alphabet 1) :
    Reads alphabet [definition.1 ++ " = " ++ definition.2.text] (definitionTokens definition) := by
  refine .ended [.word definition.1, .blank ' ', .sign .assign, .blank ' ', definition.2.piece] ?_
    (by simp [Piece.fits]) ?_ ?_ (ends_cons (ends_cons definition.2.ends_tokens))
  · simp only [List.forall_mem_cons, Piece.Sound]
    exact ⟨named.1, rfl, by decide, rfl, Expr.lexes stands, by simp⟩
  · simp [Piece.text, Sign.characters]
  · simp only [List.flatMap_cons, List.flatMap_nil, Piece.tokens, List.append_nil, named.word_eq]
    rfl

/-- A definition by itself, behind its keyword. -/
theorem reads_single (letters : String) {name : String} {keyword : Keyword} {value : Expr}
    (plain : alphabet.IsWord letters.toList) (known : word letters.toList = .keyword keyword)
    (named : alphabet.IsName name) (stands : value.Stands alphabet 1) :
    Reads alphabet [letters ++ " " ++ name ++ " = " ++ value.text]
      ((.keyword keyword :: .name name :: .sign .assign :: value.tokens) ++
        [.sign .semicolon]) := by
  refine .ended [.word letters, .blank ' ', .word name, .blank ' ', .sign .assign, .blank ' ',
    value.piece] ?_ (by simp [Piece.fits]) ?_ ?_
    (ends_cons (ends_cons (ends_cons value.ends_tokens)))
  · simp only [List.forall_mem_cons, Piece.Sound]
    exact ⟨plain, rfl, named.1, rfl, by decide, rfl, Expr.lexes stands, by simp⟩
  · simp [Piece.text, Sign.characters]
  · simp only [List.flatMap_cons, List.flatMap_nil, Piece.tokens, List.append_nil, named.word_eq,
      known]
    rfl

/-- A group of definitions, behind its keyword. -/
theorem reads_group (letters : String) {keyword : Keyword} {definitions : List (String × Expr)}
    (plain : alphabet.IsWord letters.toList) (known : word letters.toList = .keyword keyword)
    (stands : ∀ definition ∈ definitions,
      alphabet.IsName definition.1 ∧ definition.2.Stands alphabet 1) :
    Reads alphabet (group letters definitions)
      (.keyword keyword :: .sign .openParen :: (definitions.flatMap definitionTokens ++
        [.sign .closeParen, .sign .semicolon])) := by
  have head : Reads alphabet [letters ++ " ("] [.keyword keyword, .sign .openParen] := by
    refine .unended [.word letters, .blank ' ', .sign .openParen] ?_ (by simp [Piece.fits]) ?_ ?_
      rfl
    · simp only [List.forall_mem_cons, Piece.Sound]
      exact ⟨plain, rfl, by decide, by simp⟩
    · simp [Piece.text, Sign.characters]
    · simp [Piece.tokens, known]
  have inner : Reads alphabet (definitions.map fun definition =>
      definition.1 ++ " = " ++ definition.2.text) (definitions.flatMap definitionTokens) :=
    .map fun definition member =>
      definitionTokens_reads (stands definition member).1 (stands definition member).2
  have whole := head.append (inner.indent.append reads_closeParen)
  rw [List.map_map] at whole
  simpa [group, Function.comp_def] using whole

theorem entryTokens_reads {entry : Int × Expr} (stands : entry.2.Stands alphabet 1) :
    Reads alphabet [toString entry.1 ++ ": " ++ entry.2.text ++ ","] (entryTokens entry) := by
  refine .unended [.part (toString entry.1).toList (Expr.integerTokens entry.1), .sign .colon,
    .blank ' ', entry.2.piece, .sign .comma] ?_ (by simp [Piece.fits]) ?_ ?_
    (by simp [entryTokens, Token.ends, List.getLast?_cons])
  · simp only [List.forall_mem_cons, Piece.Sound]
    exact ⟨Expr.lexes_integer entry.1, by decide, rfl, Expr.lexes stands, by decide, by simp⟩
  · simp [Piece.text, Sign.characters]
  · simp [Piece.tokens, entryTokens]

theorem Item.reads {item : Item} (stands : item.Stands alphabet) :
    Reads alphabet item.lines (item.tokens ++ [.sign .semicolon]) := by
  cases item with
  | const name value =>
    exact reads_single "const" (isWord_plain (by decide)) rfl stands.1 stands.2
  | var name value =>
    exact reads_single "var" (isWord_plain (by decide)) rfl stands.1 stands.2
  | consts definitions =>
    have read := reads_group "const" (isWord_plain (by decide)) rfl stands
    simpa [tokens, lines] using read
  | vars definitions =>
    have read := reads_group "var" (isWord_plain (by decide)) rfl stands
    simpa [tokens, lines] using read
  | mapVar name keyType entries =>
    have head : Reads alphabet ["var " ++ name ++ " = map[" ++ keyType ++ "]string\x7b"]
        [.keyword .var, .name name, .sign .assign, .keyword .map, .sign .openBracket,
          .name keyType, .sign .closeBracket, .name "string", .sign .openBrace] := by
      refine .unended [.word "var", .blank ' ', .word name, .blank ' ', .sign .assign, .blank ' ',
        .word "map", .sign .openBracket, .word keyType, .sign .closeBracket, .word "string",
        .sign .openBrace] ?_ (by simp [Piece.fits, Sign.isWhole]) ?_ ?_ rfl
      · simp only [List.forall_mem_cons, Piece.Sound]
        exact ⟨isWord_plain (by decide), rfl, stands.1.1, rfl, by decide, rfl,
          isWord_plain (by decide), by decide, stands.2.1.1, by decide, isWord_plain (by decide),
          by decide, by simp⟩
      · simp [Piece.text, Sign.characters]
      · simp only [List.flatMap_cons, List.flatMap_nil, Piece.tokens, stands.1.word_eq,
          stands.2.1.word_eq]
        rfl
    have inner : Reads alphabet (entries.map fun entry =>
        toString entry.1 ++ ": " ++ entry.2.text ++ ",") (entries.flatMap entryTokens) :=
      .map fun entry member => entryTokens_reads (stands.2.2 entry member)
    have whole := head.append (inner.indent.append reads_closeBrace)
    rw [List.map_map] at whole
    simpa [tokens, lines, Function.comp_def] using whole
  | stringMethod typeName body =>
    have head : Reads alphabet ["func (i " ++ typeName ++ ") String() string \x7b"]
        [.keyword .func, .sign .openParen, .name "i", .name typeName, .sign .closeParen,
          .name "String", .sign .openParen, .sign .closeParen, .name "string",
          .sign .openBrace] := by
      refine .unended [.word "func", .blank ' ', .sign .openParen, .word "i", .blank ' ',
        .word typeName, .sign .closeParen, .blank ' ', .word "String", .sign .openParen,
        .sign .closeParen, .blank ' ', .word "string", .blank ' ', .sign .openBrace] ?_
        (by simp [Piece.fits, Sign.isWhole]) ?_ ?_ rfl
      · simp only [List.forall_mem_cons, Piece.Sound]
        exact ⟨isWord_plain (by decide), rfl, by decide, isWord_plain (by decide), rfl,
          stands.1.1, by decide, rfl, isWord_plain (by decide), by decide, by decide, rfl,
          isWord_plain (by decide), rfl, by decide, by simp⟩
      · simp [Piece.text, Sign.characters]
      · simp only [List.flatMap_cons, List.flatMap_nil, Piece.tokens, stands.1.word_eq]
        rfl
    have inner := Reads.flatMap fun statement member => Stmt.reads (stands.2 statement member)
    have whole := head.append (inner.indent.append reads_closeBrace)
    simpa [tokens, lines] using whole
  | _ => cases stands

theorem reads_empty : Reads alphabet [""] [] := .unended [] (by simp) (by simp) rfl rfl rfl

theorem reads_layout {items : List Item} (stands : ∀ item ∈ items, item.Stands alphabet) :
    Reads alphabet (layout items) (items.flatMap fun item => item.tokens ++ [.sign .semicolon]) := by
  induction items with
  | nil => exact .nil
  | cons item items ih =>
    obtain ⟨own, others⟩ := List.forall_mem_cons.mp stands
    cases items with
    | nil =>
      rw [layout_singleton, List.flatMap_singleton]
      exact Item.reads own
    | cons next items =>
      rw [layout_cons_cons]
      exact (Item.reads own).append (reads_empty.append (ih others))

/-- What is written from items is read back as these items, without a trace of layout. -/
theorem read?_layout {items : List Item} (stands : ∀ item ∈ items, item.Stands alphabet) :
    read? alphabet (lineText (layout items)) = some (items.map Item.normal) := by
  rw [read?, (reads_layout stands).tokens?_eq]
  exact items?_tokens stands

/-- Sections that stand one after the other, an empty line in front of each, are read together. -/
theorem read?_sections {sections : List (List Item)}
    (stands : ∀ items ∈ sections, ∀ item ∈ items, item.Stands alphabet) :
    read? alphabet (lineText (sections.flatMap fun items => "" :: layout items)) =
      some (sections.flatten.map Item.normal) := by
  have each : Reads alphabet (sections.flatMap fun items => "" :: layout items)
      (sections.flatMap fun items =>
        items.flatMap fun item => item.tokens ++ [.sign .semicolon]) :=
    .flatMap fun items member => reads_empty.append (reads_layout (stands items member))
  have all : ∀ item ∈ sections.flatten, item.Stands alphabet := by
    intro item member
    obtain ⟨items, among, inside⟩ := List.mem_flatten.mp member
    exact stands items among item inside
  have tokens : (sections.flatten.flatMap fun item => item.tokens ++ [.sign .semicolon]) =
      sections.flatMap fun items =>
        items.flatMap fun item => item.tokens ++ [.sign .semicolon] := by
    rw [← List.flatMap_id, List.flatMap_assoc]
    rfl
  rw [read?, each.tokens?_eq, ← tokens]
  exact items?_tokens all

end EnumNames.Go
