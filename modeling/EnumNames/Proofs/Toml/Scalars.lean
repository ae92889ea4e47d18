import EnumNames.Proofs.Toml.Numbers
import EnumNames.Proofs.Toml.Strings
import EnumNames.Toml.Grammar.Document

/-! Strings, booleans, numbers, dates and times are read as the grammar has them, wherever no word
goes on behind them. -/
namespace EnumNames.Toml

/-- No word goes on in front of a text, and none begins behind blanks in front of it. -/
structure Stops (text : List Char) : Prop where
  here : ∀ c ∈ text.head?, isWordChar c = false
  behind : ∀ c ∈ (skipBlanks text).head?, isWordChar c = false

theorem firstWord_eq {word text : List Char} (inside : word.all isWordChar) (stops : Stops text) :
    firstWord (word ++ text) = (word, text) := by
  obtain ⟨taken, dropped⟩ := takeWhile_dropWhile_append inside stops.here
  have last : startsWord (skipBlanks text) = false := by
    cases behind : skipBlanks text with
    | nil => rfl
    | cons c more =>
      have other := stops.behind
      rw [behind] at other
      simp [startsWord, other c rfl]
  rw [firstWord, taken, dropped, if_neg (by simp [last])]

/-- A written word that stands for a value. -/
structure Means (word : List Char) (value : Value) : Prop where
  alone : ∀ text, Stops text → firstWord (word ++ text) = (word, text)
  first : ∃ c others, word = c :: others ∧ isWordChar c ∧ c ≠ '"' ∧ c ≠ '\''
  said : word? word = some value

theorem means_boolean (value : Bool) : Means (toString value).toList (.boolean value) := by
  refine ⟨fun text => firstWord_eq (by cases value <;> decide), ?_, by cases value <;> rfl⟩
  cases value with
  | false => exact ⟨_, _, rfl, by decide⟩
  | true => exact ⟨_, _, rfl, by decide⟩

theorem IsNumeral.means {word : List Char} {value : Value} (numeral : IsNumeral word)
    (said : word? word = some value) : Means word value := by
  refine ⟨fun text => firstWord_eq numeral.inside, ?_, said⟩
  obtain ⟨c, others, rfl, apart⟩ := numeral.first
  have inside := numeral.inside
  rw [List.all_cons, Bool.and_eq_true] at inside
  simp only [List.mem_cons, List.not_mem_nil, or_false, not_or] at apart
  exact ⟨c, others, rfl, inside.1, apart.2.2⟩

/-! ### Dates and times -/

section
variable {word : List Char}

theorem TwoDigits.all_isDigit {number : Nat} (two : TwoDigits word number) :
    word.all Char.isDigit := by
  obtain ⟨first, second⟩ := two
  simp [first, second]

theorem TwoDigits.twoDigits?_eq {number : Nat} (two : TwoDigits word number) (rest : List Char) :
    twoDigits? (word ++ rest) = some (number, rest) := by
  obtain ⟨first, second⟩ := two
  exact if_pos ⟨first, second⟩

theorem TwoDigits.upTo?_eq {number greatest : Nat} (two : TwoDigits word number)
    (most : number ≤ greatest) (rest : List Char) : upTo? greatest (word ++ rest) = some rest := by
  rw [upTo?, two.twoDigits?_eq]
  exact if_pos most

theorem expect?_cons (c : Char) (rest : List Char) : expect? c (c :: rest) = some rest := if_pos rfl

theorem IsDate.date?_eq (dated : IsDate word) (rest : List Char) :
    date? (word ++ rest) = some rest := by
  obtain ⟨hundreds, years, months, days, real⟩ := dated
  simp only [date?, List.append_assoc, List.cons_append, hundreds.twoDigits?_eq,
    years.twoDigits?_eq, months.twoDigits?_eq, days.twoDigits?_eq, expect?_cons,
    Option.bind_eq_bind, Option.bind_some, if_pos real]

theorem IsSeconds.time?_eq {clock seconds rest : List Char} (clocked : IsClock clock)
    (behind : IsSeconds seconds)
    (ends : ∀ c ∈ rest.head?, c ≠ ':' ∧ c ≠ '.' ∧ c.isDigit = false) :
    time? (clock ++ (seconds ++ rest)) = some rest := by
  obtain ⟨hours, most, minutes, below⟩ := clocked
  simp only [time?, List.append_assoc, List.cons_append, hours.upTo?_eq most, expect?_cons,
    minutes.upTo?_eq below, Option.bind_eq_bind, Option.bind_some]
  have noFraction : skipFraction? rest = some rest := by
    unfold skipFraction?
    split
    · exact absurd rfl (ends _ rfl).2.1
    · exact absurd rfl (ends _ rfl).2.1
    · rfl
  cases behind with
  | none =>
    rw [List.nil_append]
    split
    · exact absurd rfl (ends _ rfl).1
    · rfl
  | whole second upTo => simp only [List.cons_append, second.upTo?_eq upTo, Option.bind_some, noFraction]
  | @part _ digits _ second upTo some inside =>
    obtain ⟨d, digits, rfl⟩ := List.exists_cons_of_ne_nil some
    rw [List.all_cons, Bool.and_eq_true] at inside
    simp only [List.cons_append, List.append_assoc, second.upTo?_eq upTo, Option.bind_some,
      skipFraction?, if_pos inside.1]
    rw [(takeWhile_dropWhile_append inside.2 fun c member => (ends c member).2.2).2]

theorem IsHour.time?_eq (timed : IsHour word) (rest : List Char)
    (ends : ∀ c ∈ rest.head?, c ≠ ':' ∧ c ≠ '.' ∧ c.isDigit = false) :
    time? (word ++ rest) = some rest := by
  obtain ⟨clocked, behind⟩ := timed
  rw [List.append_assoc]
  exact behind.time?_eq clocked ends

theorem IsZone.isOffset_eq (zoned : IsZone word) : (word.isEmpty || isOffset word) = true := by
  cases zoned with
  | none => rfl
  | universal marked => rcases marked with rfl | rfl <;> rfl
  | @apart sign clock signed clocked =>
    obtain ⟨hours, most, minutes, below⟩ := clocked
    have upTo := minutes.upTo?_eq below []
    rw [List.append_nil] at upTo
    rcases signed with rfl | rfl
    all_goals simp [isOffset, hours.upTo?_eq most, expect?_cons, upTo]

theorem IsZone.ends (zoned : IsZone word) :
    ∀ c ∈ word.head?, c ≠ ':' ∧ c ≠ '.' ∧ c.isDigit = false := by
  cases zoned with
  | none => exact nofun
  | universal marked =>
    rintro c ⟨⟩
    rcases marked with rfl | rfl <;> decide
  | apart signed _ =>
    rintro c ⟨⟩
    rcases signed with rfl | rfl <;> decide

end

/-- What dates and times are written with, but for a blank between them. -/
def isMomentChar (c : Char) : Bool := c.isDigit || c ∈ ['-', ':', '.', '+', 'T', 't', 'Z', 'z']

section
variable {word : List Char}

theorem all_isMomentChar_of_all_isDigit (inside : word.all Char.isDigit) :
    word.all isMomentChar :=
  List.all_eq_true.mpr fun c member => by simp [isMomentChar, List.all_eq_true.mp inside c member]

theorem TwoDigits.all_isMomentChar {number : Nat} (two : TwoDigits word number) :
    word.all isMomentChar := all_isMomentChar_of_all_isDigit two.all_isDigit

theorem IsDate.all_isMomentChar (dated : IsDate word) : word.all isMomentChar := by
  obtain ⟨hundreds, years, months, days, _⟩ := dated
  simp only [List.all_append, List.all_cons, hundreds.all_isMomentChar, years.all_isMomentChar,
    months.all_isMomentChar, days.all_isMomentChar]
  rfl

theorem IsClock.all_isMomentChar (clocked : IsClock word) : word.all isMomentChar := by
  obtain ⟨hours, _, minutes, _⟩ := clocked
  simp only [List.all_append, List.all_cons, hours.all_isMomentChar, minutes.all_isMomentChar]
  rfl

theorem IsHour.all_isMomentChar (timed : IsHour word) : word.all isMomentChar := by
  obtain ⟨clocked, behind⟩ := timed
  rw [List.all_append, clocked.all_isMomentChar, Bool.true_and]
  cases behind with
  | none => rfl
  | whole second _ =>
    rw [List.all_cons, second.all_isMomentChar]
    rfl
  | part second _ _ inside =>
    rw [List.all_cons, List.all_append, List.all_cons, second.all_isMomentChar,
      all_isMomentChar_of_all_isDigit inside]
    rfl

theorem IsZone.all_isMomentChar (zoned : IsZone word) : word.all isMomentChar := by
  cases zoned with
  | none => rfl
  | universal marked => rcases marked with rfl | rfl <;> rfl
  | apart signed clocked =>
    rw [List.all_cons, clocked.all_isMomentChar]
    rcases signed with rfl | rfl <;> rfl

theorem all_isWordChar_of_all_isMomentChar (inside : word.all isMomentChar) :
    word.all isWordChar := all_isWordChar_of (by decide) inside

/-- A date and a time alike begin with a digit. -/
theorem TwoDigits.first {number : Nat} (two : TwoDigits word number) (rest : List Char) :
    ∃ c others, word ++ rest = c :: others ∧ c.isDigit := by
  obtain ⟨first, _⟩ := two
  exact ⟨_, _, rfl, first⟩

theorem IsDate.first (dated : IsDate word) (rest : List Char) :
    ∃ c others, word ++ rest = c :: others ∧ c.isDigit := by
  obtain ⟨hundreds, _⟩ := dated
  rw [List.append_assoc]
  exact hundreds.first _

theorem IsHour.first (timed : IsHour word) (rest : List Char) :
    ∃ c others, word ++ rest = c :: others ∧ c.isDigit := by
  obtain ⟨clocked, _⟩ := timed
  obtain ⟨hours, _⟩ := clocked
  rw [List.append_assoc, List.append_assoc]
  exact hours.first _

theorem IsMoment.isMoment_eq (moment : IsMoment word) :
    (isTime word || isDate word || isDateTime word) = true := by
  cases moment with
  | date dated =>
    have whole := dated.date?_eq []
    rw [List.append_nil] at whole
    simp [isDate, whole]
  | time timed =>
    have whole := timed.time?_eq [] (by simp)
    rw [List.append_nil] at whole
    simp [isTime, whole]
  | @both date time zone mark dated marked timed zoned =>
    have marks : (mark == 'T' || mark == 't' || mark == ' ') = true := by
      rcases marked with rfl | rfl | rfl <;> rfl
    have both : isDateTime (date ++ mark :: (time ++ zone)) = true := by
      rw [isDateTime, dated.date?_eq]
      simp only [marks, timed.time?_eq zone zoned.ends, zoned.isOffset_eq, Bool.true_and]
    rw [both, Bool.or_true]

/-- A blank in front of another word does not end the first. -/
theorem firstWord_blank {front next text rest : List Char} {c : Char} (inside : front.all isWordChar)
    (some : front ≠ []) (begins : next = c :: rest) (digit : c.isDigit)
    (alone : firstWord (next ++ text) = (next, text)) :
    firstWord (front ++ (' ' :: (next ++ text))) = (front ++ ' ' :: next, text) := by
  have notBlank : isBlank c = false := by
    simp [isBlank, ne_of_isDigit ' ' digit rfl, ne_of_isDigit '\t' digit rfl]
  have starts : startsWord (next ++ text) = true := by
    have word : isWordChar c = true := isWordChar_of (p := Char.isDigit) (by decide) digit
    rw [begins, List.cons_append, startsWord, word]
    simp [ne_of_isDigit '"' digit rfl, ne_of_isDigit '\'' digit rfl]
  have skipped : skipBlanks (' ' :: (next ++ text)) = next ++ text := by
    rw [skipBlanks, List.dropWhile_cons_of_pos rfl, begins, List.cons_append,
      List.dropWhile_cons_of_neg (by simp [notBlank])]
  have taken : (' ' :: (next ++ text)).takeWhile isBlank = [' '] := by
    rw [List.takeWhile_cons_of_pos rfl, begins, List.cons_append,
      List.takeWhile_cons_of_neg (by simp [notBlank])]
  have ends : ∀ c ∈ (' ' :: (next ++ text)).head?, isWordChar c = false := by
    rintro c ⟨⟩
    rfl
  obtain ⟨before, behind⟩ := takeWhile_dropWhile_append inside ends
  rw [firstWord, before, behind, skipped, taken, if_pos ⟨some, starts⟩, alone]
  simp

theorem IsMoment.means (moment : IsMoment word) : Means word (.moment (.ofList word)) := by
  have first : ∃ c others, word = c :: others ∧ c.isDigit := by
    cases moment with
    | date dated => simpa using dated.first []
    | time timed => simpa using timed.first []
    | both dated _ _ _ => exact dated.first _
  refine ⟨?_, ?_, ?_⟩
  · intro text stops
    cases moment with
    | date dated =>
      exact firstWord_eq (all_isWordChar_of_all_isMomentChar dated.all_isMomentChar) stops
    | time timed =>
      exact firstWord_eq (all_isWordChar_of_all_isMomentChar timed.all_isMomentChar) stops
    | @both date time zone mark dated marked timed zoned =>
      have front := all_isWordChar_of_all_isMomentChar dated.all_isMomentChar
      have behind : (time ++ zone).all isWordChar := by
        rw [List.all_append, all_isWordChar_of_all_isMomentChar timed.all_isMomentChar,
          all_isWordChar_of_all_isMomentChar zoned.all_isMomentChar]
        rfl
      have joined (mark : Char) (word : isWordChar mark) :
          (date ++ mark :: (time ++ zone)).all isWordChar := by
        rw [List.all_append, List.all_cons, front, word, behind]
        rfl
      rcases marked with rfl | rfl | rfl
      · exact firstWord_eq (joined _ rfl) stops
      · exact firstWord_eq (joined _ rfl) stops
      · obtain ⟨c, others, begins, digit⟩ := timed.first zone
        obtain ⟨_, _, dateBegins, _⟩ := dated.first []
        rw [List.append_nil] at dateBegins
        rw [List.append_assoc, List.cons_append]
        exact firstWord_blank front (by simp [dateBegins]) begins digit (firstWord_eq behind stops)
  · obtain ⟨c, others, rfl, digit⟩ := first
    exact ⟨c, others, rfl, isWordChar_of (p := Char.isDigit) (by decide) digit,
      ne_of_isDigit _ digit rfl, ne_of_isDigit _ digit rfl⟩
  · obtain ⟨c, others, begins, digit⟩ := first
    rw [word?, if_neg, if_neg, moment.isMoment_eq, if_pos rfl]
    · rintro rfl
      exact ne_of_isDigit 'f' digit rfl (List.cons.inj begins).1.symm
    · rintro rfl
      exact ne_of_isDigit 't' digit rfl (List.cons.inj begins).1.symm

end

/-! ### Scalars -/

/-- A word is no string. -/
theorem Means.reads {word text : List Char} {value : Value} (means : Means word value)
    (stops : Stops text) : Reads scalar? (word ++ text) value text := by
  obtain ⟨alone, ⟨c, others, rfl, _, quote, apostrophe⟩, said⟩ := means
  have noString : string? (c :: others ++ text) = none := by
    rw [List.cons_append, string?, singleLine?]
    · exact fun _ same => quote (List.cons.inj same).1
    · exact fun _ same => apostrophe (List.cons.inj same).1
    · exact fun _ same => quote (List.cons.inj same).1
    · exact fun _ same => apostrophe (List.cons.inj same).1
  refine ⟨by rw [List.length_append, List.length_cons]; omega, ?_⟩
  simp only [scalar?, noString, alone text stops, said, Option.map_some, reduceCtorEq,
    dite_false]

theorem Scalar.reads {text rest : List Char} {value : Value} (scalar : Scalar text value rest)
    (stops : Stops rest) : Reads scalar? text value rest := by
  cases scalar with
  | string quoted =>
    obtain ⟨shorter, same⟩ := quoted.reads
      (fun atMark => absurd (stops.here _ atMark) (by decide))
      (fun atMark => absurd (stops.here _ atMark) (by decide))
    exact ⟨shorter, by rw [scalar?, same]; rfl⟩
  | boolean value => exact (means_boolean value).reads stops
  | integer number => exact (number.isNumeral.means number.word?_eq).reads stops
  | floating number => exact (number.isNumeral.means number.word?_eq).reads stops
  | moment moment => exact moment.means.reads stops

end EnumNames.Toml
