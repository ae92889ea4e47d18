import EnumNames.Proofs.Declarations
import EnumNames.Proofs.Go.Evaluation
import EnumNames.Proofs.Go.LayoutReading

/-! The guard looks an array of one element up at differences of constants and numbers, which no
compiler accepts unless every difference is zero. Read back from its text, the differences are those
of the constants that a table is made from. Inside of the guard the array hides a constant with the
name `x`. -/
namespace EnumNames
namespace Go
variable {alphabet : Alphabet}

/-- The places at which the statements behind the declaration of the array look it up. -/
def places? (tokens : List Token) : Option (List Expr × List Token) :=
  match tokens with
  | .sign .closeBrace :: rest => some ([], rest)
  | .name "_" :: .sign .assign :: .name "x" :: .sign .openBracket :: inner => do
    let (place, rest) ← expr? 1 inner
    match rest with
    | .sign .closeBracket :: .sign .semicolon :: rest =>
      if rest.length < inner.length then do
        let (places, rest) ← places? rest
        return (place :: places, rest)
      else none
    | _ => none
  | _ => none
termination_by tokens.length

/-- The places at which a function with the blank name looks up its array of one element. -/
def guard? : List Token → Option (List Expr × List Token)
  | .keyword .func :: .name "_" :: .sign .openParen :: .sign .closeParen :: .sign .openBrace ::
      .keyword .var :: .name "x" :: .sign .openBracket :: .number 1 :: .sign .closeBracket ::
      .keyword .struct :: .sign .openBrace :: .sign .closeBrace :: .sign .semicolon :: rest =>
    places? rest
  | _ => none

/-- The places in the one guard that a text consists of. -/
def readGuard? (alphabet : Alphabet) (text : String) : Option (List Expr) := do
  let tokens ← tokens? alphabet text
  match ← guard? tokens with
  | (places, [.sign .semicolon]) => some places
  | _ => none

/-- The difference of a constant and a number. -/
def difference (pin : String × Int) : Expr := .wide .sub (.name pin.1) (.int pin.2)

/-- The constant and the number that a place is the difference of. -/
def pin? : Expr → Option (String × Int)
  | .wide .sub (.name name) (.int number) => some (name, number)
  | _ => none

/-- The scope in which every name is a constant, with an integer that has no type. It is the scope
around the guard, without the array that the guard declares. -/
def constants (assign : String → Int) : Scope Value := fun name =>
  some (.data (.int none (assign name)))

theorem mapM_pin?_difference (pins : List (String × Int)) :
    (pins.map difference).mapM pin? = some pins := by
  induction pins with
  | nil => rfl
  | cons pin pins ih =>
    rw [List.map_cons, List.mapM_cons, ih]
    rfl

theorem evaluate_difference (assign : String → Int) (pin : String × Int) :
    evaluate (constants assign) (difference pin) = .ok (.int none (assign pin.1 - pin.2)) := rfl

/-- A difference is zero exactly if the constant has the number. -/
theorem evaluate_difference_eq_zero_iff {assign : String → Int} {pin : String × Int} :
    evaluate (constants assign) (difference pin) = .ok (.int none 0) ↔ assign pin.1 = pin.2 := by
  rw [evaluate_difference, Except.ok.injEq, Value.int.injEq, Int.sub_eq_zero]
  exact and_iff_right rfl

section Reading

/-- The tokens of a statement that looks the array up. -/
def placeTokens (place : Expr) : List Token :=
  .name "_" :: .sign .assign :: .name "x" :: .sign .openBracket ::
    (place.tokens ++ [Token.sign .closeBracket, .sign .semicolon])

theorem places?_tokens {places : List Expr} (stands : ∀ place ∈ places, place.Stands alphabet 1)
    (rest : List Token) : places? (places.flatMap placeTokens ++ Token.sign .closeBrace :: rest) =
      some (places.map Expr.normal, rest) := by
  induction places with
  | nil => rw [places?.eq_def]; rfl
  | cons place places ih =>
    obtain ⟨own, others⟩ := List.forall_mem_cons.mp stands
    rw [places?.eq_def]
    simp only [List.flatMap_cons, placeTokens, List.cons_append, List.append_assoc,
      List.nil_append, Expr.read own (.sign .closeBracket :: _) rfl, ih others,
      Option.bind_eq_bind, Option.bind_some]
    rw [if_pos (by simp only [List.length_append, List.length_cons]; omega)]
    rfl

theorem lexemes?_comment {letters rest : List Char} (single : '\n' ∉ letters) :
    lexemes? alphabet ('/' :: '/' :: (letters ++ '\n' :: rest)) =
      lexemes? alphabet ('\n' :: rest) := by
  have inside : ∀ c ∈ letters, (c != '\n') = true := by
    intro c member
    simp only [bne_iff_ne]
    rintro rfl
    exact single member
  rw [lexemes?.eq_def]
  exact congrArg _ (takeWhile_append_eq inside (by simp)).2

/-- A line with a comment alone stands for nothing. -/
theorem reads_comment {line : String} {letters : List Char} (single : IsLine line)
    (written : line.toList = '/' :: '/' :: letters) : Reads alphabet [line] [] := by
  intro margin blank rest
  rw [IsLine, written] at single
  have inside : '\n' ∉ letters := fun member =>
    single (List.mem_cons_of_mem _ (List.mem_cons_of_mem _ member))
  rw [List.flatMap_singleton, List.append_assoc, List.append_assoc, lexemes?_margin blank, written]
  simp only [List.cons_append, List.nil_append]
  rw [lexemes?_comment inside, lexemes?_lineEnd, Option.map_map, Option.map_id']
  rfl

theorem reads_place {place : Expr} (stands : place.Stands alphabet 1) :
    Reads alphabet ["_ = x[" ++ place.text ++ "]"] (placeTokens place) := by
  have read : Reads alphabet ["_ = x[" ++ place.text ++ "]"] ((Token.name "_" :: .sign .assign ::
      .name "x" :: .sign .openBracket :: (place.tokens ++ [Token.sign .closeBracket])) ++
        [Token.sign .semicolon]) := by
    refine .ended [.word "_", .blank ' ', .sign .assign, .blank ' ', .word "x", .sign .openBracket,
      place.piece, .sign .closeBracket] ?_ (by simp [Piece.fits, Sign.isWhole]) ?_ ?_
      (by simp [Token.ends, List.getLast?_cons])
    · simp only [List.forall_mem_cons, Piece.Sound]
      exact ⟨isWord_plain (by decide), rfl, by decide, rfl, isWord_plain (by decide), by decide,
        Expr.lexes stands, by decide, by simp⟩
    · simp [Piece.text, Sign.characters]
    · simp only [List.flatMap_cons, List.flatMap_nil, Piece.tokens, List.append_nil]
      rfl
  simpa [placeTokens] using read

theorem stands_difference {pin : String × Int} (named : alphabet.IsName pin.1) :
    (difference pin).Stands alphabet 1 := ⟨by decide, named, trivial⟩

/-- The tokens of a guard. -/
def guardTokens (pins : List (String × Int)) : List Token :=
  .keyword .func :: .name "_" :: .sign .openParen :: .sign .closeParen :: .sign .openBrace ::
    .keyword .var :: .name "x" :: .sign .openBracket :: .number 1 :: .sign .closeBracket ::
    .keyword .struct :: .sign .openBrace :: .sign .closeBrace :: .sign .semicolon ::
    ((pins.map difference).flatMap placeTokens ++ [Token.sign .closeBrace, .sign .semicolon])

theorem reads_guard {pins : List (String × Int)} (named : ∀ pin ∈ pins, alphabet.IsName pin.1) :
    Reads alphabet (Item.guard pins).lines (guardTokens pins) := by
  have head : Reads alphabet ["func _() \x7b"]
      [.keyword .func, .name "_", .sign .openParen, .sign .closeParen, .sign .openBrace] := by
    refine .unended [.word "func", .blank ' ', .word "_", .sign .openParen, .sign .closeParen,
      .blank ' ', .sign .openBrace] ?_ (by simp [Piece.fits, Sign.isWhole]) (by decide) rfl rfl
    simp only [List.forall_mem_cons, Piece.Sound]
    exact ⟨isWord_plain (by decide), rfl, isWord_plain (by decide), by decide, by decide, rfl,
      by decide, by simp⟩
  have array : Reads alphabet ["var x [1]struct\x7b\x7d"]
      [.keyword .var, .name "x", .sign .openBracket, .number 1, .sign .closeBracket,
        .keyword .struct, .sign .openBrace, .sign .closeBrace, .sign .semicolon] := by
    refine .ended [.word "var", .blank ' ', .word "x", .blank ' ', .sign .openBracket, .number 1,
      .sign .closeBracket, .word "struct", .sign .openBrace, .sign .closeBrace] ?_
      (by simp [Piece.fits, Sign.isWhole]) (by decide) rfl rfl
    simp only [List.forall_mem_cons, Piece.Sound]
    exact ⟨isWord_plain (by decide), rfl, isWord_plain (by decide), rfl, by decide, trivial,
      by decide, isWord_plain (by decide), by decide, by decide, by simp⟩
  have places : Reads alphabet (pins.map fun pin => "_ = x[" ++ (difference pin).text ++ "]")
      (pins.flatMap fun pin => placeTokens (difference pin)) :=
    .map fun pin member => reads_place (stands_difference (named pin member))
  have reason : Reads alphabet ["// An \"invalid array index\" compiler error signifies that the constant values have changed."] [] :=
    reads_comment (by simp [IsLine]) rfl
  have remedy : Reads alphabet ["// Re-run the stringer command to generate them again."] [] :=
    reads_comment (by simp [IsLine]) rfl
  have whole := head.append ((reason.append (remedy.append (array.append places))).indent.append
    reads_closeBrace)
  simpa [guardTokens, Item.lines, List.flatMap_map, Function.comp_def, difference, Expr.text,
    Operator.sign, String.append_assoc] using whole

/-- What is written from numbers of constants is read back as their differences. -/
theorem readGuard?_lines {pins : List (String × Int)}
    (named : ∀ pin ∈ pins, alphabet.IsName pin.1) :
    readGuard? alphabet (lineText (Item.guard pins).lines) = some (pins.map difference) := by
  have stands : ∀ place ∈ pins.map difference, place.Stands alphabet 1 := by
    intro place member
    obtain ⟨pin, among, rfl⟩ := List.mem_map.mp member
    exact stands_difference (named pin among)
  have places := places?_tokens stands [.sign .semicolon]
  have same : (pins.map difference).map Expr.normal = pins.map difference := by
    rw [List.map_map]
    rfl
  rw [same] at places
  have read : guard? (guardTokens pins) = some (pins.map difference, [.sign .semicolon]) := places
  simp only [readGuard?, (reads_guard named).tokens?_eq, Option.bind_eq_bind, Option.bind_some, read]

end Reading
end Go

namespace Declaration

/-- The numbers are those of the constants that have a name and are integers. -/
theorem map_numbers (declarations : List Declaration) :
    (numbers declarations).map (Prod.map id some) =
      (declarations.filter fun declaration =>
        declaration.name != "_" && declaration.value.number?.isSome).map fun declaration =>
          (declaration.name, declaration.value.number?) := by
  induction declarations with
  | nil => rfl
  | cons declaration declarations ih =>
    by_cases blank : declaration.name = "_"
    · simpa [numbers, isBlank, blank] using ih
    · cases number : declaration.value.number? with
      | none => simpa [numbers, isBlank, blank, number] using ih
      | some n => simpa [numbers, isBlank, blank, number] using ih

theorem numbers_eq (declarations : List Declaration) : numbers declarations =
    (live declarations).filterMap fun declaration =>
      declaration.value.number?.map (declaration.name, ·) := by
  rw [live, List.filterMap_filter, numbers]
  congr 1
  funext declaration
  cases declaration.isBlank <;> rfl

theorem mem_numbers {declarations : List Declaration} {pin : String × Int} :
    pin ∈ numbers declarations ↔ ∃ declaration ∈ declarations, declaration.name ≠ "_" ∧
      declaration.name = pin.1 ∧ declaration.value.number? = some pin.2 := by
  rw [numbers, List.mem_filterMap]
  constructor
  · rintro ⟨declaration, member, kept⟩
    split at kept
    · cases kept
    · rename_i named
      obtain ⟨n, number, rfl⟩ := Option.map_eq_some_iff.mp kept
      exact ⟨declaration, member, by simpa [isBlank] using named, rfl, number⟩
  · rintro ⟨declaration, member, named, name, number⟩
    refine ⟨declaration, member, ?_⟩
    rw [if_neg (by simpa [isBlank] using named), number, name]
    rfl

end Declaration

namespace Policy
open Declaration
variable {policy : Policy}

theorem number_record {declaration : Declaration} {record : Record}
    (made : policy.record declaration = .ok record) :
    declaration.value.number? = some record.number := by
  unfold Policy.record at made
  split at made
  · rename_i word value
    cases made
    rw [value, Record.number, Signedness.read, Int64.toInt64_toUInt64, ConstantValue.number?]
  · rename_i word value
    cases made
    rw [value]
    rfl
  · cases made

/-- The records stand for the numbers of the constants, one by one and in order. -/
theorem map_number_collect {declarations : List Declaration} {records : List Record}
    (collected : policy.collect declarations = .ok records) :
    records.map Record.number = (numbers declarations).map Prod.snd := by
  have made : List.Forall₂ (fun declaration record => policy.record declaration = .ok record)
      (live declarations) records := Tables.forall₂_of_mapM collected
  clear collected
  rw [numbers_eq]
  generalize live declarations = constants at made ⊢
  induction made with
  | nil => rfl
  | cons made _ ih =>
    rw [List.filterMap_cons_some (by rw [number_record made, Option.map_some]), List.map_cons,
      List.map_cons, ih]

end Policy

namespace Descriptor

/-- Every record that a table is made from is found in it under its number. -/
theorem Compiled.exists_lookup? {typeName : String} {records : List Record}
    {descriptor : Descriptor} (compiled : Compiled typeName records descriptor)
    (size : records.length < UInt64.size) {record : Record} (member : record ∈ records) :
    ∃ word, descriptor.signedness.read word = record.number ∧
      (descriptor.lookup? word).isSome := by
  refine ⟨record.value, by rw [Record.number, compiled.uniform record member], ?_⟩
  rw [compiled.lookup? size, Option.isSome_map, Option.isSome_iff_ne_none]
  exact fun none => Record.declared?_eq_none_iff.mp none record member rfl

end Descriptor

namespace Go
open Declaration

/-- The guard pins each constant that has a name and an integer, under its declared name and in
order. All its places, taken in the scope around the guard, are zero exactly if every constant has
its number, and the numbers are those of the records that a table is made from, where each of them
is found. -/
theorem writeGuard_pins {alphabet : Alphabet} {declarations : List Declaration}
    (named : ∀ declaration ∈ declarations, alphabet.IsName declaration.name) :
    ∃ text places pins, writeGuard declarations .unbounded = .ok ⟨text, none⟩ ∧
      readGuard? alphabet text = some places ∧ places.mapM pin? = some pins ∧
      pins.map (Prod.map id some) =
        ((declarations.filter fun declaration =>
          declaration.name != "_" && declaration.value.number?.isSome).map fun declaration =>
            (declaration.name, declaration.value.number?)) ∧
      (∀ assign, (∀ place ∈ places, evaluate (constants assign) place = .ok (.int none 0)) ↔
        ∀ declaration ∈ declarations, declaration.name ≠ "_" →
          ∀ n, declaration.value.number? = some n → assign declaration.name = n) ∧
      ∀ (policy : Policy) records, policy.collect declarations = .ok records →
        records.map Record.number = pins.map Prod.snd ∧
        ∀ typeName descriptor, (Descriptor.compile typeName records).outcome = .ok descriptor →
          records.length < UInt64.size → ∀ pin ∈ pins, ∃ word,
            descriptor.signedness.read word = pin.2 ∧ (descriptor.lookup? word).isSome := by
  have namedPins : ∀ pin ∈ numbers declarations, alphabet.IsName pin.1 := by
    intro pin member
    obtain ⟨declaration, among, _, name, _⟩ := mem_numbers.mp member
    exact name ▸ named declaration among
  refine ⟨_, _, numbers declarations, writeLines_unbounded _, ?_, mapM_pin?_difference _,
    map_numbers declarations, ?_, ?_⟩
  · rw [layout_singleton]
    exact readGuard?_lines namedPins
  · intro assign
    rw [List.forall_mem_map]
    simp only [evaluate_difference_eq_zero_iff]
    constructor
    · intro zero declaration member named n number
      exact zero (declaration.name, n) (mem_numbers.mpr ⟨declaration, member, named, rfl, number⟩)
    · intro all pin member
      obtain ⟨declaration, among, named, name, number⟩ := mem_numbers.mp member
      rw [← name]
      exact all declaration among named pin.2 number
  · intro policy records collected
    have same := Policy.map_number_collect collected
    refine ⟨same, ?_⟩
    intro typeName descriptor compiled size pin member
    have among : pin.2 ∈ records.map Record.number := same ▸ List.mem_map_of_mem member
    obtain ⟨record, inside, number⟩ := List.mem_map.mp among
    rw [← number]
    exact (Descriptor.compile_eq_ok_iff.mp compiled).exists_lookup? size inside

/-- A negative number, and a blank constant between two others. -/
theorem writeGuard_pins_negative : ∃ text places pins descriptor,
    writeGuard [⟨"PillLow", .signed (-2), none⟩, ⟨"_", .signed 7, none⟩,
      ⟨"PillOne", .signed 1, none⟩] .unbounded = .ok ⟨text, none⟩ ∧
    readGuard? ⟨fun _ => false, fun _ => false⟩ text = some places ∧
    places.mapM pin? = some pins ∧
    pins.map (Prod.map id some) = [("PillLow", some (-2)), ("PillOne", some 1)] ∧
    (∀ place ∈ places, evaluate (constants fun name => if name = "PillOne" then 1 else -2) place =
      .ok (.int none 0)) ∧
    [-2, 1] = pins.map Prod.snd ∧
    (Descriptor.compile "Pill" [⟨"Low", 0xfffffffffffffffe, .signed⟩,
      ⟨"One", 1, .signed⟩]).outcome = .ok descriptor ∧
    ∀ pin ∈ pins, ∃ word, descriptor.signedness.read word = pin.2 ∧
      (descriptor.lookup? word).isSome := by
  have named : ∀ declaration ∈ [(⟨"PillLow", .signed (-2), none⟩ : Declaration),
      ⟨"_", .signed 7, none⟩, ⟨"PillOne", .signed 1, none⟩],
      Alphabet.IsName ⟨fun _ => false, fun _ => false⟩ declaration.name := by
    simp only [List.forall_mem_cons]
    exact ⟨⟨isWord_plain (by decide), by decide⟩, ⟨isWord_plain (by decide), by decide⟩,
      ⟨isWord_plain (by decide), by decide⟩, by simp⟩
  have collected : Policy.collect ⟨"Pill", false⟩ [⟨"PillLow", .signed (-2), none⟩,
      ⟨"_", .signed 7, none⟩, ⟨"PillOne", .signed 1, none⟩] =
    .ok [⟨"Low", 0xfffffffffffffffe, .signed⟩, ⟨"One", 1, .signed⟩] := by cbv
  obtain ⟨descriptor, compiled⟩ : ∃ descriptor, (Descriptor.compile "Pill"
      [⟨"Low", 0xfffffffffffffffe, .signed⟩, ⟨"One", 1, .signed⟩]).outcome = .ok descriptor :=
    ⟨_, by cbv⟩
  obtain ⟨text, places, pins, written, read, differences, pinned, zero, tables⟩ :=
    writeGuard_pins named
  obtain ⟨numbers, found⟩ := tables _ _ collected
  exact ⟨text, places, pins, descriptor, written, read, differences, pinned.trans (by decide),
    (zero _).mpr (by decide), numbers, compiled, found _ _ compiled (by decide)⟩

end Go
end EnumNames
