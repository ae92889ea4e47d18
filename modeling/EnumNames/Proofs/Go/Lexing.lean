import EnumNames.Proofs.Go.Token
import Mathlib

/-! Texts put together from words, numbers, literals and signs. Each piece is read with the text
behind it present, so a piece may not grow: it is enough that every two neighbours fit. -/
namespace EnumNames.Go
variable {alphabet : Alphabet}

/-- A letter, and then letters and digits. -/
def Alphabet.IsWord (alphabet : Alphabet) (letters : List Char) : Prop :=
  (∃ c ∈ letters.head?, alphabet.startsName c = true) ∧ letters.all alphabet.continuesName

/-- Words of ASCII are words whatever the letters are. -/
theorem isWord_ascii {letters : List Char}
    (first : letters.head?.any (fun c => c.isAlpha || c == '_'))
    (others : letters.all fun c => c.isAlphanum || c == '_') : alphabet.IsWord letters := by
  constructor
  · cases letters with
    | nil => cases first
    | cons c letters => exact ⟨c, rfl, by simp_all [Alphabet.startsName]⟩
  · rw [List.all_eq_true] at others ⊢
    intro c member
    have plain := others c member
    simp only [Char.isAlphanum, Bool.or_eq_true] at plain
    simp only [Alphabet.continuesName, Alphabet.startsName, Bool.or_eq_true]
    tauto

/-- Whether a word ends in front of a text. -/
def Alphabet.stopsWord (alphabet : Alphabet) (rest : List Char) : Bool :=
  rest.head?.all fun c => !alphabet.continuesName c

/-- Whether a word or a number ends in front of a text. -/
def Alphabet.stops (alphabet : Alphabet) (rest : List Char) : Bool :=
  alphabet.stopsWord rest && rest.head? != some '.'

/-- Whether no sign of more than one character has a character behind its first one. -/
def isApart (c : Char) : Bool :=
  isBlank c || c == '\n' || c.isAlphanum || c == '_' || c == '"' || 0x80 ≤ c.toNat

/-- Whether a sign that could be longer ends in front of a text. -/
def stopsSign (rest : List Char) : Bool := rest.head?.all isApart

/-- The text is read as these tokens, all on one line, in front of all that stops a word. -/
structure Lexes (alphabet : Alphabet) (text : List Char) (tokens : List Token) : Prop where
  inside : .lineEnd ∉ tokens
  read : ∀ rest, alphabet.stops rest →
    lexemes? alphabet (text ++ rest) = (lexemes? alphabet rest).map (tokens ++ ·)

theorem lexemes?_token {c : Char} {text rest : List Char} {token : Token} (comment : c ≠ '/')
    (blank : isBlank c = false) (shorter : rest.length ≤ text.length)
    (read : token? alphabet (c :: text) = some (token, rest)) :
    lexemes? alphabet (c :: text) = (lexemes? alphabet rest).map (token :: ·) := by
  rw [lexemes?.eq_def]
  split
  · simp_all
  · simp_all
  · simp_all
  · rename_i same
    cases same
    simp only [blank, Bool.false_eq_true, if_false, read, shorter, if_true, Option.bind_eq_bind,
      Option.bind_some]
    cases lexemes? alphabet rest <;> rfl

theorem lexemes?_blank {c : Char} (rest : List Char) (blank : isBlank c = true) :
    lexemes? alphabet (c :: rest) = lexemes? alphabet rest := by
  rw [lexemes?.eq_def]
  split
  · simp_all
  · simp_all [isBlank]
  · simp_all [isBlank]
  · rename_i same
    cases same
    simp [blank]

theorem lexemes?_lineEnd (rest : List Char) :
    lexemes? alphabet ('\n' :: rest) = (lexemes? alphabet rest).map (.lineEnd :: ·) :=
  lexemes?_token (by decide) (by decide) (Nat.le_refl _) rfl

theorem token?_cons {c : Char} {rest : List Char} (line : c ≠ '\n') (quote : c ≠ '"') :
    token? alphabet (c :: rest) =
      if alphabet.startsName c then
        some (Go.word (c :: rest.takeWhile alphabet.continuesName),
          rest.dropWhile alphabet.continuesName)
      else if c.isDigit then number? alphabet (c :: rest)
      else (sign? (c :: rest)).map fun (sign, rest) => (.sign sign, rest) := by
  rw [token?.eq_def]
  split
  · simp_all
  · simp_all
  · simp_all
  · rename_i same
    cases same
    rfl

/-- A name starts with a character that no blank, sign, quotation mark or digit is. -/
theorem startsName_bound {c : Char} (starts : alphabet.startsName c = true) :
    65 ≤ c.toNat ∧ c.isDigit = false := by
  have number : c.toNat = c.val.toNat := rfl
  have bounds : 'A'.val.toNat = 65 ∧ 'a'.val.toNat = 97 ∧ '0'.val.toNat = 48 ∧
      '9'.val.toNat = 57 := by decide
  simp only [Alphabet.startsName, Char.isAlpha, Char.isUpper, Char.isLower, Bool.or_eq_true,
    Bool.and_eq_true, decide_eq_true_eq, beq_iff_eq, ge_iff_le, UInt32.le_iff_toNat_le] at starts
  simp only [Char.isDigit, Bool.and_eq_false_iff, decide_eq_false_iff_not, ge_iff_le,
    UInt32.le_iff_toNat_le]
  rcases starts with ((upper | lower) | rfl) | ⟨high, _⟩
  · omega
  · omega
  · decide
  · omega

/-- Where a property ends, a text is cut. -/
theorem takeWhile_append_eq {p : Char → Bool} {letters rest : List Char}
    (inside : ∀ c ∈ letters, p c = true) (ends : ∀ c ∈ rest.head?, p c = false) :
    (letters ++ rest).takeWhile p = letters ∧ (letters ++ rest).dropWhile p = rest := by
  rw [List.takeWhile_append_of_pos inside, List.dropWhile_append_of_pos inside]
  cases rest with
  | nil => simp
  | cons c rest => simp [ends c rfl]

theorem lexemes?_word {letters rest : List Char} (word : alphabet.IsWord letters)
    (stops : alphabet.stopsWord rest) :
    lexemes? alphabet (letters ++ rest) =
      (lexemes? alphabet rest).map (Go.word letters :: ·) := by
  obtain ⟨⟨c, first, starts⟩, continues⟩ := word
  obtain ⟨others, rfl⟩ : ∃ others, letters = c :: others := by
    cases letters with
    | nil => simp at first
    | cons d others => exact ⟨others, by simpa using first⟩
  have ⟨bound, digit⟩ := startsName_bound starts
  have differs {d : Char} (low : d.toNat < 65) : c ≠ d := by
    rintro rfl
    omega
  have ends : ∀ d ∈ rest.head?, alphabet.continuesName d = false := by
    intro d head
    rw [Alphabet.stopsWord, Option.mem_def.mp head] at stops
    simpa using stops
  have inside : ∀ d ∈ others, alphabet.continuesName d = true := by
    simp_all
  obtain ⟨taken, dropped⟩ := takeWhile_append_eq inside ends
  refine lexemes?_token (differs (by decide)) (by simp [isBlank, differs]) (by simp) ?_
  rw [List.append_eq, token?_cons (differs (by decide)) (differs (by decide)), if_pos starts, taken,
    dropped]

/-- No digits but those of zero start with a zero. -/
theorem head_toDigits {n : Nat} (positive : n ≠ 0) : (Nat.toDigits 10 n).head? ≠ some '0' := by
  induction n using Nat.strongRecOn with
  | ind n ih =>
    by_cases small : n < 10
    · rw [Nat.toDigits_of_lt_base small]
      have table : ∀ n < 10, n ≠ 0 → [n.digitChar].head? ≠ some '0' := by decide
      exact table n small positive
    · rw [Nat.toDigits_of_base_le (by decide) (by omega),
        List.head?_append_of_ne_nil _ Nat.toDigits_ne_nil]
      exact ih (n / 10) (by omega) (by omega)

theorem toList_toString_eq_cons (n : Nat) :
    ∃ c others, (toString n).toList = c :: others ∧ c.isDigit = true := by
  rw [toList_toString_nat]
  obtain ⟨c, others, written⟩ := List.exists_cons_of_ne_nil (Nat.toDigits_ne_nil (n := n) (b := 10))
  refine ⟨c, others, written, ?_⟩
  exact Nat.isDigit_of_mem_toDigits (by decide) (by decide) (written ▸ List.mem_cons_self)

theorem lexemes?_number (n : Nat) {rest : List Char} (stops : alphabet.stops rest) :
    lexemes? alphabet ((toString n).toList ++ rest) =
      (lexemes? alphabet rest).map (.number n :: ·) := by
  rw [toList_toString_nat]
  have digits : ∀ d ∈ Nat.toDigits 10 n, d.isDigit = true :=
    fun d member => Nat.isDigit_of_mem_toDigits (by decide) (by decide) member
  have ends : ∀ d ∈ rest.head?, (alphabet.continuesName d || d == '.') = false := by
    intro d head
    rw [Alphabet.stops, Alphabet.stopsWord, Option.mem_def.mp head] at stops
    simpa using stops
  have notDigit : ∀ d ∈ rest.head?, d.isDigit = false := by
    intro d head
    have continues := ends d head
    simp_all [Alphabet.continuesName]
  obtain ⟨taken, dropped⟩ := takeWhile_append_eq digits notDigit
  have plain : ((Nat.toDigits 10 n).head? == some '0' &&
      (Nat.toDigits 10 n).length != 1) = false := by
    by_cases zero : n = 0
    · subst zero
      decide
    · simp [head_toDigits zero]
  have free : (rest.head?.any fun c => alphabet.continuesName c || c == '.') = false := by
    cases rest with
    | nil => rfl
    | cons d rest => simpa using ends d rfl
  have read : number? alphabet (Nat.toDigits 10 n ++ rest) = some (.number n, rest) := by
    simp only [number?, taken, dropped, plain, free, Nat.ofDigitChars_ten_toDigits]
    rfl
  obtain ⟨c, others, written, digit⟩ := toList_toString_eq_cons n
  rw [toList_toString_nat] at written
  rw [written] at read ⊢
  have differs {d : Char} (other : d.isDigit = false) : c ≠ d := by
    rintro rfl
    simp_all
  have named : alphabet.startsName c = false := by
    cases starts : alphabet.startsName c with
    | false => rfl
    | true => simp [(startsName_bound starts).2] at digit
  refine lexemes?_token (differs (by decide)) (by simp [isBlank, differs]) (by simp) ?_
  rw [token?_cons (differs (by decide)) (differs (by decide)), if_neg (by simp [named]),
    if_pos digit]
  exact read

theorem lexemes?_literal {characters text : List Char} {rest : List Char}
    (reads : literal? (characters ++ '"' :: rest) = some (text, rest)) :
    lexemes? alphabet ('"' :: (characters ++ '"' :: rest)) =
      (lexemes? alphabet rest).map (.literal (.ofList text) :: ·) := by
  refine lexemes?_token (by decide) (by decide) (by simp; omega) ?_
  simp only [token?, reads, Option.map_some]

/-- The characters of the signs that name tables use. -/
def Sign.characters : Sign → List Char
  | .openParen => ['(']
  | .closeParen => [')']
  | .openBracket => ['[']
  | .closeBracket => [']']
  | .openBrace => ['\x7b']
  | .closeBrace => ['\x7d']
  | .comma => [',']
  | .colon => [':']
  | .semicolon => [';']
  | .dot => ['.']
  | .ellipsis => ['.', '.', '.']
  | .assign => ['=']
  | .define => [':', '=']
  | .decrease => ['-', '=']
  | .operator joining => joining.sign.toList
  | .other => []

/-- Whether no longer sign starts with a sign. -/
def Sign.isWhole : Sign → Bool
  | .openParen | .closeParen | .openBracket | .closeBracket | .openBrace | .closeBrace | .comma
  | .semicolon | .ellipsis | .define | .decrease => true
  | _ => false

theorem sign?_characters {mark : Sign} {rest : List Char} (known : mark ≠ .other)
    (stops : mark.isWhole || stopsSign rest) :
    sign? (mark.characters ++ rest) = some (mark, rest) := by
  have ends (more : mark.isWhole = false) : ∀ c ∈ rest.head?,
      ∀ d ∈ ['=', '<', '>', '&', '|', '-', '+', '.', '^'], d ≠ c := by
    have table : ['=', '<', '>', '&', '|', '-', '+', '.', '^'].all (!isApart ·) := by decide
    intro c head d member same
    subst same
    rw [more, Bool.false_or, stopsSign, Option.mem_def.mp head, Option.all_some] at stops
    simpa [stops] using List.all_eq_true.mp table d member
  cases mark with
  | operator joining =>
    cases rest with
    | nil => cases joining <;> simp [sign?, signs, Sign.characters, Operator.sign]
    | cons c rest =>
      have differ := ends rfl c rfl
      simp only [List.forall_mem_cons] at differ
      cases joining <;> simp [sign?, signs, Sign.characters, Operator.sign, differ]
  | other => exact absurd rfl known
  | colon | dot | assign =>
    cases rest with
    | nil => simp [sign?, signs, Sign.characters]
    | cons c rest =>
      have differ := ends rfl c rfl
      simp only [List.forall_mem_cons] at differ
      simp [sign?, signs, Sign.characters, differ]
  | _ => simp [sign?, signs, Sign.characters]

theorem startsName_low {c : Char} (low : c.toNat < 0x80)
    (letter : (c.isAlpha || c == '_') = false) : alphabet.startsName c = false := by
  simp only [Alphabet.startsName, letter, Bool.false_or, Bool.and_eq_false_iff,
    decide_eq_false_iff_not]
  exact .inl (by omega)

theorem continuesName_low {c : Char} (low : c.toNat < 0x80)
    (letter : (c.isAlpha || c == '_') = false) (digit : c.isDigit = false) :
    alphabet.continuesName c = false := by
  simp only [Alphabet.continuesName, startsName_low low letter, digit, Bool.false_or,
    Bool.and_eq_false_iff, decide_eq_false_iff_not]
  exact .inl (by omega)

/-- A sign starts with a character that no blank, comment, word or literal starts with. -/
theorem Sign.characters_eq_cons {mark : Sign} (known : mark ≠ .other) : ∃ c others,
    mark.characters = c :: others ∧ c ≠ '/' ∧ isBlank c = false ∧ c ≠ '\n' ∧ c ≠ '"' ∧
      c.isDigit = false ∧ c.toNat < 0x80 ∧ (c.isAlpha || c == '_') = false ∧
      (c = '.' → mark = .dot ∨ mark = .ellipsis) := by
  cases mark with
  | operator joining =>
    cases joining <;> exact ⟨_, _, rfl, by decide⟩
  | other => exact absurd rfl known
  | _ => exact ⟨_, _, rfl, by decide⟩

theorem stops_blank {c : Char} (rest : List Char) (blank : isBlank c = true) :
    alphabet.stops (c :: rest) = true := by
  have low : c.toNat < 0x80 ∧ (c.isAlpha || c == '_') = false ∧ c.isDigit = false ∧ c ≠ '.' := by
    simp only [isBlank, Bool.or_eq_true, beq_iff_eq] at blank
    rcases blank with (rfl | rfl) | rfl <;> decide
  have apart : alphabet.continuesName c = false := continuesName_low low.1 low.2.1 low.2.2.1
  simp [Alphabet.stops, Alphabet.stopsWord, apart, low.2.2.2]

theorem stopsSign_blank {c : Char} (rest : List Char) (blank : isBlank c = true) :
    stopsSign (c :: rest) = true := by
  simp [stopsSign, isApart, blank]

theorem stopsWord_sign {mark : Sign} (rest : List Char) (known : mark ≠ .other) :
    alphabet.stopsWord (mark.characters ++ rest) = true := by
  obtain ⟨c, others, written, _, _, _, _, digit, low, letter, _⟩ := Sign.characters_eq_cons known
  have apart : alphabet.continuesName c = false := continuesName_low low letter digit
  simp [Alphabet.stopsWord, written, apart]

/-- A sign ends a number too, unless it could be a point in it. -/
theorem stops_sign {mark : Sign} (rest : List Char) (known : mark ≠ .other) (dot : mark ≠ .dot)
    (ellipsis : mark ≠ .ellipsis) : alphabet.stops (mark.characters ++ rest) = true := by
  rw [Alphabet.stops, stopsWord_sign rest known]
  obtain ⟨c, others, written, _, _, _, _, _, _, _, point⟩ := Sign.characters_eq_cons known
  have other : c ≠ '.' := by
    intro same
    exact (point same).elim dot ellipsis
  simp [written, other]

theorem stopsSign_word {letters : List Char} (rest : List Char) (word : alphabet.IsWord letters) :
    stopsSign (letters ++ rest) = true := by
  obtain ⟨⟨c, head, starts⟩, _⟩ := word
  rw [Option.mem_def] at head
  simp only [stopsSign, isApart, List.head?_append, head, Option.some_or, Option.all_some]
  simp only [Alphabet.startsName, Bool.or_eq_true, Bool.and_eq_true] at starts
  rcases starts with (letter | underscore) | ⟨high, _⟩
  · simp [Char.isAlphanum, letter]
  · simp [underscore]
  · simp [high]

theorem stopsSign_number (n : Nat) (rest : List Char) :
    stopsSign ((toString n).toList ++ rest) = true := by
  obtain ⟨c, others, written, digit⟩ := toList_toString_eq_cons n
  rw [written]
  simp [stopsSign, isApart, Char.isAlphanum, digit]

/-- What a text is put together from. -/
inductive Piece
  | blank (c : Char)
  | word (letters : String)
  | number (n : Nat)
  /-- A literal, with its characters between the marks and the text that it stands for. -/
  | literal (characters : List Char) (text : String)
  | sign (mark : Sign)
  /-- A text that is known to be read as some tokens. -/
  | part (characters : List Char) (tokens : List Token)

namespace Piece

def text : Piece → List Char
  | .blank c => [c]
  | .word letters => letters.toList
  | .number n => (toString n).toList
  | .literal characters _ => '"' :: (characters ++ ['"'])
  | .sign mark => mark.characters
  | .part characters _ => characters

def tokens : Piece → List Token
  | .blank _ => []
  | .word letters => [Go.word letters.toList]
  | .number n => [.number n]
  | .literal _ text => [.literal text]
  | .sign mark => [.sign mark]
  | .part _ tokens => tokens

def Sound (alphabet : Alphabet) : Piece → Prop
  | .blank c => isBlank c = true
  | .word letters => alphabet.IsWord letters.toList
  | .number _ => True
  | .literal characters text =>
    ∀ rest, literal? (characters ++ '"' :: rest) = some (text.toList, rest)
  | .sign mark => mark ≠ .other
  | .part characters tokens => Lexes alphabet characters tokens

/-- Whether a piece ends in front of a text. -/
def endsBefore (alphabet : Alphabet) (rest : List Char) : Piece → Bool
  | .blank _ | .literal _ _ => true
  | .word _ => alphabet.stopsWord rest
  | .number _ | .part _ _ => alphabet.stops rest
  | .sign mark => mark.isWhole || stopsSign rest

/-- Whether a piece ends in front of another one, whatever these say. -/
def fits : Piece → Piece → Bool
  | .blank _, _ | .literal _ _, _ | _, .blank _ => true
  | .word _, .sign _ => true
  | .number _, .sign mark | .part _ _, .sign mark => mark != .dot && mark != .ellipsis
  | .sign _, .word _ | .sign _, .number _ | .sign _, .literal _ _ => true
  | .sign mark, .part characters _ => mark.isWhole || characters.head?.any isApart
  | .sign mark, _ => mark.isWhole
  | _, _ => false

theorem lexemes?_text {piece : Piece} (sound : piece.Sound alphabet) {rest : List Char}
    (ends : piece.endsBefore alphabet rest) : lexemes? alphabet (piece.text ++ rest) =
      (lexemes? alphabet rest).map (piece.tokens ++ ·) := by
  cases piece with
  | blank c =>
    rw [text, List.singleton_append, lexemes?_blank rest sound]
    exact (Option.map_id' ..).symm
  | word letters => exact lexemes?_word sound ends
  | number n => exact lexemes?_number n ends
  | literal characters meaning =>
    have read := @lexemes?_literal alphabet _ _ _ (sound rest)
    rw [String.ofList_toList] at read
    rw [text, List.cons_append, List.append_assoc]
    exact read
  | sign mark =>
    obtain ⟨c, others, written, comment, blank, line, quote, digit, low, letter, _⟩ :=
      Sign.characters_eq_cons sound
    have read := sign?_characters sound ends
    have named : alphabet.startsName c = false := startsName_low low letter
    rw [text, written, List.cons_append] at *
    refine lexemes?_token comment blank (by simp) ?_
    rw [token?_cons line quote, if_neg (by simp [named]), if_neg (by simp [digit]), read]
    rfl
  | part characters tokens => exact sound.read rest ends

theorem lineEnd_notMem {pieces : List Piece} (sound : ∀ piece ∈ pieces, piece.Sound alphabet) :
    .lineEnd ∉ pieces.flatMap tokens := by
  intro member
  obtain ⟨piece, among, member⟩ := List.mem_flatMap.mp member
  have known := sound piece among
  cases piece with
  | word letters =>
    simp only [tokens, Go.word] at member
    split at member <;> simp at member
  | part characters meaning => exact known.inside member
  | _ => simp [tokens] at member

/-- Neighbours that fit stay apart. -/
theorem endsBefore_of_fits {left right : Piece} (sound : right.Sound alphabet)
    (fits : left.fits right) (rest : List Char) :
    left.endsBefore alphabet (right.text ++ rest) := by
  cases left with
  | blank c | literal characters meaning => rfl
  | word letters =>
    cases right with
    | blank c => exact (Bool.and_eq_true_iff.mp (stops_blank rest sound)).1
    | sign mark => exact stopsWord_sign rest sound
    | _ => cases fits
  | number n | part characters tokens =>
    cases right with
    | blank c => exact stops_blank rest sound
    | sign mark =>
      simp only [Piece.fits, Bool.and_eq_true, bne_iff_ne] at fits
      exact stops_sign rest sound fits.1 fits.2
    | _ => cases fits
  | sign mark =>
    simp only [endsBefore, Bool.or_eq_true]
    cases right with
    | blank c => exact .inr (stopsSign_blank rest sound)
    | word letters => exact .inr (stopsSign_word rest sound)
    | number n => exact .inr (stopsSign_number n rest)
    | literal characters meaning => exact .inr rfl
    | sign _ => exact .inl fits
    | part characters tokens =>
      refine (Bool.or_eq_true_iff.mp fits).imp_right ?_
      intro apart
      cases characters with
      | nil => cases apart
      | cons c characters => exact apart

/-- A text whose pieces fit is read piece by piece. -/
theorem lexemes?_flatMap {pieces : List Piece} (sound : ∀ piece ∈ pieces, piece.Sound alphabet)
    (fits : pieces.IsChain (·.fits ·)) {rest : List Char}
    (ends : ∀ piece ∈ pieces.getLast?, piece.endsBefore alphabet rest) :
    lexemes? alphabet (pieces.flatMap text ++ rest) =
      (lexemes? alphabet rest).map (pieces.flatMap tokens ++ ·) := by
  induction pieces with
  | nil => exact (Option.map_id' ..).symm
  | cons piece pieces ih =>
    obtain ⟨own, others⟩ := List.forall_mem_cons.mp sound
    cases pieces with
    | nil =>
      rw [List.flatMap_singleton, List.flatMap_singleton]
      exact lexemes?_text own (ends piece rfl)
    | cons next pieces =>
      obtain ⟨fit, fits⟩ := List.isChain_cons_cons.mp fits
      have read := ih others fits (by simpa using ends)
      have first : piece.endsBefore alphabet ((next :: pieces).flatMap text ++ rest) := by
        rw [List.flatMap_cons, List.append_assoc]
        exact endsBefore_of_fits (others next List.mem_cons_self) fit _
      rw [List.flatMap_cons, List.append_assoc, lexemes?_text own first, read, Option.map_map,
        List.flatMap_cons (f := tokens)]
      simp [Function.comp_def]

/-- A text whose pieces fit is read piece by piece in front of all that stops a word, unless it
ends in a sign that could be longer. -/
theorem lexes (pieces : List Piece) {characters : List Char} {meaning : List Token}
    (sound : ∀ piece ∈ pieces, piece.Sound alphabet) (fits : pieces.IsChain (·.fits ·))
    (whole : ∀ mark, pieces.getLast? = some (.sign mark) → mark.isWhole)
    (written : pieces.flatMap text = characters) (means : pieces.flatMap tokens = meaning) :
    Lexes alphabet characters meaning := by
  subst written means
  refine ⟨lineEnd_notMem sound, fun rest stops =>
    lexemes?_flatMap sound fits fun piece last => ?_⟩
  cases piece with
  | sign mark => simp [endsBefore, whole mark last]
  | blank c | literal characters meaning => rfl
  | word letters => exact (Bool.and_eq_true_iff.mp stops).1
  | number n | part characters tokens => exact stops

end Piece

end EnumNames.Go
