import EnumNames.Proofs.Go.ExprReading

/-! Lines are read one by one: a line end closes a statement or stands for nothing, and the
margin of a line is not seen. -/
namespace EnumNames.Go
variable {alphabet : Alphabet}

/-- The lines are read as these tokens behind every margin and in front of every text. -/
def Reads (alphabet : Alphabet) (lines : List String) (tokens : List Token) : Prop :=
  ∀ margin : List Char, margin.all isBlank → ∀ rest : List Char,
    (lexemes? alphabet (lines.flatMap (fun line => margin ++ line.toList ++ ['\n']) ++ rest)).map
        (separate false) =
      ((lexemes? alphabet rest).map (separate false)).map (tokens ++ ·)

theorem Reads.nil : Reads alphabet [] [] := fun _ _ _ => (Option.map_id' ..).symm

theorem Reads.append {first second : List String} {tokens others : List Token}
    (one : Reads alphabet first tokens) (two : Reads alphabet second others) :
    Reads alphabet (first ++ second) (tokens ++ others) := by
  intro margin blank rest
  rw [List.flatMap_append, List.append_assoc, one margin blank, two margin blank, Option.map_map]
  simp only [Function.comp_def, List.append_assoc]

theorem Reads.flatMap {α : Type} {parts : List α} {lines : α → List String}
    {tokens : α → List Token} (each : ∀ part ∈ parts, Reads alphabet (lines part) (tokens part)) :
    Reads alphabet (parts.flatMap lines) (parts.flatMap tokens) := by
  induction parts with
  | nil => exact .nil
  | cons part parts ih =>
    obtain ⟨first, others⟩ := List.forall_mem_cons.mp each
    exact first.append (ih others)

theorem Reads.map {α : Type} {parts : List α} {line : α → String} {tokens : α → List Token}
    (each : ∀ part ∈ parts, Reads alphabet [line part] (tokens part)) :
    Reads alphabet (parts.map line) (parts.flatMap tokens) := by
  rw [List.map_eq_flatMap]
  exact .flatMap each

theorem Reads.indent {lines : List String} {tokens : List Token}
    (read : Reads alphabet lines tokens) : Reads alphabet (lines.map Go.indent) tokens := by
  intro margin blank rest
  rw [← read (margin ++ ['\t']) (by simp [isBlank, blank]), List.flatMap_map]
  simp [Go.indent]

theorem Reads.tokens?_eq {lines : List String} {tokens : List Token}
    (read : Reads alphabet lines tokens) : tokens? alphabet (lineText lines) = some tokens := by
  have whole := read [] rfl []
  simp only [List.nil_append, List.append_nil, ← toList_lineText] at whole
  rw [tokens?, whole]
  simp [lexemes?.eq_def, separate]

/-- A line end behind some tokens stands for a semicolon if the last one may end a statement. -/
theorem separate_lineEnd {tokens : List Token} (inside : .lineEnd ∉ tokens) (ended : Bool)
    (rest : List Token) : separate ended (tokens ++ .lineEnd :: rest) =
      tokens ++ (if tokens.getLast?.elim ended Token.ends then [.sign .semicolon] else []) ++
        separate false rest := by
  induction tokens generalizing ended with
  | nil => cases ended <;> rfl
  | cons token tokens ih =>
    obtain ⟨other, inside⟩ := List.ne_and_not_mem_of_not_mem_cons inside
    have step : separate ended (token :: (tokens ++ .lineEnd :: rest)) =
        token :: separate token.ends (tokens ++ .lineEnd :: rest) := by
      cases token with
      | lineEnd => cases other rfl
      | _ => rfl
    have last : (token :: tokens).getLast?.elim ended Token.ends =
        tokens.getLast?.elim token.ends Token.ends := by
      rw [List.getLast?_cons]
      cases tokens.getLast? <;> rfl
    rw [List.cons_append, step, ih inside, last]
    rfl

/-- Every piece ends at a line end. -/
theorem Piece.endsBefore_lineEnd (piece : Piece) (rest : List Char) :
    piece.endsBefore alphabet ('\n' :: rest) := by
  have apart : alphabet.continuesName '\n' = false :=
    continuesName_low (by decide) (by decide) (by decide)
  cases piece <;>
    simp [endsBefore, Alphabet.stops, Alphabet.stopsWord, stopsSign, isApart, apart]

theorem lexemes?_margin {margin : List Char} (blank : margin.all isBlank) (rest : List Char) :
    lexemes? alphabet (margin ++ rest) = lexemes? alphabet rest := by
  induction margin with
  | nil => rfl
  | cons c margin ih =>
    simp only [List.all_cons, Bool.and_eq_true] at blank
    rw [List.cons_append, lexemes?_blank _ blank.1, ih blank.2]

/-- A line is read piece by piece, and its end counts if its last token may end a statement. -/
theorem Reads.line (pieces : List Piece) {line : String} {tokens : List Token}
    (sound : ∀ piece ∈ pieces, piece.Sound alphabet) (fits : pieces.IsChain (·.fits ·))
    (written : pieces.flatMap Piece.text = line.toList)
    (means : pieces.flatMap Piece.tokens = tokens) : Reads alphabet [line] (tokens ++
      if tokens.getLast?.any Token.ends then [.sign .semicolon] else []) := by
  intro margin blank rest
  have read := Piece.lexemes?_flatMap sound fits
    (fun piece _ => piece.endsBefore_lineEnd rest)
  have inside : .lineEnd ∉ tokens := means ▸ Piece.lineEnd_notMem sound
  have last : tokens.getLast?.any Token.ends = tokens.getLast?.elim false Token.ends := by
    cases tokens.getLast? <;> rfl
  rw [List.flatMap_singleton, List.append_assoc, List.append_assoc, List.singleton_append,
    lexemes?_margin blank, ← written, read, lexemes?_lineEnd, means, last]
  simp only [Option.map_map, Function.comp_def, separate_lineEnd inside]

/-- A line that ends a statement. -/
theorem Reads.ended (pieces : List Piece) {line : String} {tokens : List Token}
    (sound : ∀ piece ∈ pieces, piece.Sound alphabet) (fits : pieces.IsChain (·.fits ·))
    (written : pieces.flatMap Piece.text = line.toList)
    (means : pieces.flatMap Piece.tokens = tokens) (ends : tokens.getLast?.any Token.ends) :
    Reads alphabet [line] (tokens ++ [.sign .semicolon]) := by
  have read := Reads.line pieces sound fits written means
  rwa [if_pos ends] at read

/-- A line that goes on in the next one. -/
theorem Reads.unended (pieces : List Piece) {line : String} {tokens : List Token}
    (sound : ∀ piece ∈ pieces, piece.Sound alphabet) (fits : pieces.IsChain (·.fits ·))
    (written : pieces.flatMap Piece.text = line.toList)
    (means : pieces.flatMap Piece.tokens = tokens)
    (ends : tokens.getLast?.any Token.ends = false) : Reads alphabet [line] tokens := by
  have read := Reads.line pieces sound fits written means
  rwa [if_neg (by simp [ends]), List.append_nil] at read

theorem ends_cons {token : Token} {tokens : List Token} (ends : tokens.getLast?.any Token.ends) :
    (token :: tokens).getLast?.any Token.ends := by
  cases tokens with
  | nil => cases ends
  | cons next tokens => rwa [List.getLast?_cons_cons]

theorem isWord_plain {letters : String}
    (plain : letters.toList.head?.any (fun c => c.isAlpha || c == '_') &&
      letters.toList.all fun c => c.isAlphanum || c == '_') : alphabet.IsWord letters.toList := by
  obtain ⟨first, others⟩ := Bool.and_eq_true_iff.mp plain
  exact isWord_ascii first others

namespace Expr

theorem ends_integerTokens (value : Int) : (integerTokens value).getLast?.any Token.ends := by
  unfold integerTokens
  split <;> rfl

/-- A statement may end with an expression. -/
theorem ends_tokens (e : Expr) : e.tokens.getLast?.any Token.ends := by
  induction e with
  | int value => exact ends_integerTokens value
  | wide joining left right _ ih | tight joining left right _ ih =>
    cases last : right.tokens.getLast? with
    | none => simp [last] at ih
    | some token => simpa [tokens, List.getLast?_cons, last] using ih
  | _ => simp [tokens, Token.ends, List.getLast?_cons]

end Expr
end EnumNames.Go
