import EnumNames.Proofs.Toml.Space
import EnumNames.Toml.Grammar.Scalar
import EnumNames.Toml.Literal

/-! Numbers are read as the grammar has them. No number looks like a date or a time: those go on
behind their first digits with a minus or a colon, and numbers do not. -/
namespace EnumNames.Toml

/-- What digits are written with. -/
def isFigure (c : Char) : Bool := c.isDigit || c == '_'

theorem ne_of_isDigit {c : Char} (other : Char) (digit : c.isDigit)
    (apart : other.isDigit = false) :
    c ≠ other := by
  rintro rfl
  rw [digit] at apart
  cases apart

theorem isHexDigit_of_isDigit {c : Char} (digit : c.isDigit) : isHexDigit c := by
  simp [isHexDigit, digit]

namespace Figures
variable {p q : Char → Bool} {written digits : List Char} (figures : Figures p written digits)
include figures

theorem exists_cons : ∃ d others, written = d :: others ∧ p d := by
  cases figures with
  | last digit => exact ⟨_, _, rfl, digit⟩
  | next digit _ => exact ⟨_, _, rfl, digit⟩
  | underscore digit _ => exact ⟨_, _, rfl, digit⟩

theorem digits_ne_nil : digits ≠ [] := by
  cases figures <;> exact List.cons_ne_nil _ _

theorem all_digits : digits.all p := by
  induction figures with
  | last digit => simp [digit]
  | next digit _ ih => simp [digit, ih]
  | underscore digit _ ih => simp [digit, ih]

theorem all_written : written.all fun c => p c || c == '_' := by
  induction figures with
  | last digit => simp [digit]
  | next digit _ ih => rw [List.all_cons, ih, digit]; rfl
  | underscore digit _ ih => rw [List.all_cons, List.all_cons, ih, digit]; simp

theorem mono (weaker : ∀ c, p c → q c) : Figures q written digits := by
  induction figures with
  | last digit => exact .last (weaker _ digit)
  | next digit _ ih => exact .next (weaker _ digit) ih
  | underscore digit _ ih => exact .underscore (weaker _ digit) ih

section
variable (plain : p '_' = false)
include plain

theorem withoutUnderscores_eq : withoutUnderscores written = digits := by
  have kept {d : Char} (digit : p d) (text : List Char) :
      withoutUnderscores (d :: text) = d :: withoutUnderscores text := by
    refine List.filter_cons_of_pos (bne_iff_ne.mpr ?_)
    rintro rfl
    rw [plain] at digit
    cases digit
  induction figures with
  | last digit => exact kept digit []
  | next digit _ ih => rw [kept digit, ih]
  | underscore digit _ ih =>
    rw [kept digit, ← ih]
    rfl

/-- Behind digits an underscore would have a digit in front of it. -/
theorem separatedAfter_append (before : Bool) (rest : List Char) :
    separatedAfter p before (written ++ rest) = separatedAfter p true rest := by
  have step {d : Char} (digit : p d) (before : Bool) (text : List Char) :
      separatedAfter p before (d :: text) = separatedAfter p true text := by
    rw [separatedAfter, digit]
    rintro rfl
    rw [plain] at digit
    cases digit
  induction figures generalizing before with
  | last digit => exact step digit before rest
  | next digit _ ih => rw [List.cons_append, step digit, ih]
  | underscore digit others ih =>
    obtain ⟨d, behind, rfl, first⟩ := others.exists_cons
    have goesOn := ih false
    rw [List.cons_append] at goesOn
    rw [List.cons_append, step digit, List.cons_append, List.cons_append, separatedAfter, goesOn]
    simp [first]

theorem separatedAfter_eq (before : Bool) : separatedAfter p before written = true := by
  have whole := figures.separatedAfter_append plain before []
  rw [List.append_nil] at whole
  rw [whole]
  rfl

theorem separated : Toml.separated p written := figures.separatedAfter_eq plain false

end

end Figures

/-! ### Signs and digits in base ten -/

theorem Sign.splitSign_eq {sign rest : List Char} {negative : Bool} (signed : Sign sign negative)
    (plus : rest.head? ≠ some '+') (minus : rest.head? ≠ some '-') :
    splitSign (sign ++ rest) = (negative, rest) := by
  cases signed with
  | none =>
    rw [List.nil_append, splitSign]
    · rintro _ rfl
      exact minus rfl
    · rintro _ rfl
      exact plus rfl
  | plus => rfl
  | minus => rfl

theorem Figures.head?_ne {written digits : List Char} (figures : Figures Char.isDigit written digits)
    (rest : List Char) {c : Char} (apart : c.isDigit = false) : (written ++ rest).head? ≠ some c := by
  obtain ⟨d, others, rfl, digit⟩ := figures.exists_cons
  intro same
  exact ne_of_isDigit c digit apart (Option.some.inj same)

theorem Sign.splitSign_figures {sign written digits : List Char} {negative : Bool}
    (signed : Sign sign negative) (figures : Figures Char.isDigit written digits)
    (rest : List Char) : splitSign (sign ++ (written ++ rest)) = (negative, written ++ rest) :=
  signed.splitSign_eq (figures.head?_ne rest rfl) (figures.head?_ne rest rfl)

theorem Sign.splitSign_word {sign written digits : List Char} {negative : Bool}
    (signed : Sign sign negative) (figures : Figures Char.isDigit written digits) :
    splitSign (sign ++ written) = (negative, written) := by
  have split := signed.splitSign_figures figures []
  rwa [List.append_nil] at split

theorem Decimals.leadsWithZero_eq {written digits : List Char} (decimals : Decimals written digits) :
    leadsWithZero written = false := by
  obtain ⟨figures, noLeadingZero⟩ := decimals
  have alone {others : List Char} (some : others ≠ []) (zero : digits = '0' :: others) : False := by
    rcases noLeadingZero with only | other
    · exact some (List.cons.inj (zero.symm.trans only)).2
    · exact other (by rw [zero]; rfl)
  unfold leadsWithZero
  split
  · cases figures with
    | next _ others => exact absurd rfl (alone others.digits_ne_nil)
    | underscore _ others => exact absurd rfl (alone others.digits_ne_nil)
  · rfl

theorem Figures.figures?_eq {written digits : List Char}
    (figures : Figures Char.isDigit written digits) : figures? written = some digits := by
  have plain := figures.withoutUnderscores_eq rfl
  rw [figures?, plain, if_pos ⟨figures.digits_ne_nil, figures.all_digits⟩]

/-! ### Whole numbers -/

theorem decimal?_eq {sign written digits : List Char} {negative : Bool}
    (signed : Sign sign negative) (decimals : Decimals written digits) :
    decimal? (sign ++ written) = some ⟨10, negative, digits⟩ := by
  have figures := decimals.figures
  have inside : ∀ c ∈ written, c.isDigit = true ∨ c = '_' := by
    simpa using figures.all_written
  have stops : (written.dropWhile Char.isDigit).head?.all (· == '_') := by
    have stop := List.head?_dropWhile_not Char.isDigit written
    cases behind : (written.dropWhile Char.isDigit).head? with
    | none => rfl
    | some c =>
      rw [behind] at stop
      have member := (List.dropWhile_sublist _).mem (List.mem_of_head? behind)
      simpa [stop] using inside c member
  have noMark : written.any endsWhole = false := by
    refine List.any_eq_false.mpr fun c member => ?_
    rcases inside c member with digit | rfl
    · have point := ne_of_isDigit '.' digit rfl
      have lower := ne_of_isDigit 'e' digit rfl
      have upper := ne_of_isDigit 'E' digit rfl
      have blank := ne_of_isDigit ' ' digit rfl
      simp [endsWhole, point, lower, upper, blank]
    · decide
  have apart := (figures.mono fun _ => isHexDigit_of_isDigit).separated rfl
  have some : written ≠ [] := by
    obtain ⟨_, _, rfl, _⟩ := figures.exists_cons
    exact List.cons_ne_nil _ _
  rw [decimal?, signed.splitSign_word figures]
  simp only [decimals.leadsWithZero_eq, stops, noMark, apart, figures.withoutUnderscores_eq rfl]
  simp [some]

theorem marked?_eq {base : Nat} {written digits : List Char}
    (figures : Figures (isDigitOf base) written digits) :
    marked? base written = some ⟨base, false, digits⟩ := by
  have plain : isDigitOf base '_' = false := rfl
  rw [marked?, figures.withoutUnderscores_eq plain,
    if_pos ⟨figures.separated plain, figures.all_digits⟩]

theorem IsInteger.integer?_eq {word : List Char} {whole : Whole} (number : IsInteger word whole) :
    integer? word = some whole := by
  cases number with
  | @decimal sign written digits negative signed decimals =>
    have inside : ∀ c ∈ sign ++ written, c.isDigit = true ∨ c = '_' ∨ c = '+' ∨ c = '-' := by
      intro c member
      have figure : ∀ c ∈ written, c.isDigit = true ∨ c = '_' := by
        simpa using decimals.figures.all_written
      rcases List.mem_append.mp member with front | back
      · cases signed <;> simp_all
      · exact (figure c back).imp_right .inl
    have same := decimal?_eq signed decimals
    unfold integer?
    split
    · rename_i word digits whole
      exact absurd (inside 'x' (whole ▸ by simp)) (by decide)
    · rename_i word digits whole
      exact absurd (inside 'o' (whole ▸ by simp)) (by decide)
    · rename_i word digits whole
      exact absurd (inside 'b' (whole ▸ by simp)) (by decide)
    · exact same
  | marked based figures =>
    simp only [List.mem_cons, Prod.mk.injEq, List.not_mem_nil, or_false] at based
    rcases based with ⟨rfl, rfl⟩ | ⟨rfl, rfl⟩ | ⟨rfl, rfl⟩
    all_goals exact marked?_eq figures

/-! ### Numbers with a fraction or a power of ten -/

theorem exponent?_eq {sign written digits : List Char} {negative : Bool} (signed : Sign sign negative)
    (figures : Figures Char.isDigit written digits) : exponent? (sign ++ written) =
      some (if negative then -(ofDigits 10 digits : Int) else ofDigits 10 digits) := by
  rw [exponent?, signed.splitSign_word figures]
  simp only [figures.figures?_eq, Option.map_some]

theorem separatedAfter_cons {p : Char → Bool} {c : Char} (other : c ≠ '_') (before : Bool)
    (rest : List Char) : separatedAfter p before (c :: rest) = separatedAfter p (p c) rest := by
  rw [separatedAfter]
  exact other

theorem Power.separatedAfter_eq {power : List Char} {exponent : Int} (powered : Power power exponent)
    (before : Bool) : separatedAfter Char.isDigit before power = true := by
  cases powered with
  | none => rfl
  | some marked signed figures =>
    rw [separatedAfter_cons (by rcases marked with rfl | rfl <;> decide)]
    cases signed with
    | none => exact figures.separatedAfter_eq rfl _
    | plus =>
      exact (separatedAfter_cons (by decide) _ _).trans (figures.separatedAfter_eq rfl _)
    | minus =>
      exact (separatedAfter_cons (by decide) _ _).trans (figures.separatedAfter_eq rfl _)

section
variable {whole digits behind fraction power : List Char} {exponent : Int}
  (decimals : Decimals whole digits) (fractional : Fraction behind fraction)
  (powered : Power power exponent)
include decimals fractional powered

theorem separated_floating : separated Char.isDigit (whole ++ (behind ++ power)) := by
  rw [separated, decimals.figures.separatedAfter_append rfl]
  cases fractional with
  | none => exact powered.separatedAfter_eq _
  | some figures =>
    rw [List.cons_append, separatedAfter_cons (by decide), figures.separatedAfter_append rfl]
    exact powered.separatedAfter_eq _

/-- The exponent mark parts a number in two, and the point parts what is in front of it. -/
theorem parted_floating :
    ((whole ++ (behind ++ power)).takeWhile (!isExponentMark ·) = whole ++ behind ∧
      (whole ++ (behind ++ power)).dropWhile (!isExponentMark ·) = power) ∧
      (whole ++ behind).takeWhile (· != '.') = whole ∧
      (whole ++ behind).dropWhile (· != '.') = behind := by
  have figure {written digits : List Char} (figures : Figures Char.isDigit written digits) :
      ∀ c ∈ written, isExponentMark c = false ∧ (c != '.') = true := by
    intro c member
    have either : c.isDigit = true ∨ c = '_' := by
      simpa using List.all_eq_true.mp figures.all_written c member
    rcases either with digit | rfl
    · have lower := ne_of_isDigit 'e' digit rfl
      have upper := ne_of_isDigit 'E' digit rfl
      have point := ne_of_isDigit '.' digit rfl
      simp [isExponentMark, lower, upper, point]
    · decide
  have front := figure decimals.figures
  constructor
  · have inside : (whole ++ behind).all (!isExponentMark ·) := by
      refine List.all_eq_true.mpr fun c member => ?_
      rcases List.mem_append.mp member with inWhole | inBehind
      · simp [(front c inWhole).1]
      · cases fractional with
        | none => cases inBehind
        | some figures =>
          rcases List.mem_cons.mp inBehind with rfl | inside
          · decide
          · simp [(figure figures c inside).1]
    have ends : ∀ c ∈ power.head?, (!isExponentMark c) = false := by
      cases powered with
      | none => exact nofun
      | some marked _ _ =>
        rintro c ⟨⟩
        rcases marked with rfl | rfl <;> decide
    rw [← List.append_assoc]
    exact takeWhile_dropWhile_append inside ends
  · have ends : ∀ c ∈ behind.head?, (c != '.') = false := by
      cases fractional with
      | none => exact nofun
      | some _ =>
        rintro c ⟨⟩
        decide
    exact takeWhile_dropWhile_append (List.all_eq_true.mpr fun c member => (front c member).2) ends

theorem unsignedFloating?_eq (some : behind ≠ [] ∨ power ≠ []) (negative : Bool) :
    unsignedFloating? negative (whole ++ (behind ++ power)) =
      .some (.decimal negative (ofDigits 10 (digits ++ fraction)) (exponent - fraction.length)) := by
  obtain ⟨⟨mantissa, rest⟩, front, back⟩ := parted_floating decimals fractional powered
  have noZero := decimals.leadsWithZero_eq
  have wholeDigits := decimals.figures.figures?_eq
  cases powered with
  | none =>
    cases fractional with
    | none => exact absurd rfl (some.resolve_left fun behind => behind rfl)
    | some figures =>
      simp only [unsignedFloating?, mantissa, rest, front, back, noZero, wholeDigits,
        figures.figures?_eq, Bool.false_eq_true, if_false, Option.bind_eq_bind, Option.bind_some]
  | some marked signed exponents =>
    have powerOfTen := exponent?_eq signed exponents
    cases fractional with
    | none =>
      simp only [unsignedFloating?, mantissa, rest, front, back, noZero, wholeDigits, powerOfTen,
        Bool.false_eq_true, if_false, Option.bind_eq_bind, Option.bind_some]
      rw [if_neg (by simp)]
      simp
    | some figures =>
      simp only [unsignedFloating?, mantissa, rest, front, back, noZero, wholeDigits, powerOfTen,
        figures.figures?_eq, Bool.false_eq_true, if_false, Option.bind_eq_bind, Option.bind_some]

end

theorem IsFloating.floating?_eq {word : List Char} {value : Floating}
    (number : IsFloating word value) : floating? word = some value := by
  cases number with
  | @decimal sign whole digits behind fraction power negative exponent signed decimals fractional
      powered some =>
    rw [floating?, signed.splitSign_figures decimals.figures]
    have apart := separated_floating decimals fractional powered
    have same := unsignedFloating?_eq decimals fractional powered some negative
    dsimp only
    split
    · rename_i special
      exact absurd (by rw [special]; rfl) (decimals.figures.head?_ne (behind ++ power) (c := 'i') rfl)
    · rename_i special
      exact absurd (by rw [special]; rfl) (decimals.figures.head?_ne (behind ++ power) (c := 'n') rfl)
    · rw [if_pos apart, same]
  | infinite signed => cases signed <;> rfl
  | nan signed => cases signed <;> rfl

/-! ### What numbers are not -/

/-- What numbers in base ten are written with. -/
def isNumeralChar (c : Char) : Bool := isFigure c || c ∈ ['.', 'e', 'E', '+', '-']

theorem Figures.all_isFigure {written digits : List Char}
    (figures : Figures Char.isDigit written digits) : written.all isFigure := figures.all_written

theorem all_isNumeralChar_of_all_isFigure {written : List Char} (inside : written.all isFigure) :
    written.all isNumeralChar :=
  List.all_eq_true.mpr fun c member => by
    simp [isNumeralChar, List.all_eq_true.mp inside c member]

theorem Sign.all_isNumeralChar {sign : List Char} {negative : Bool} (signed : Sign sign negative) :
    sign.all isNumeralChar := by
  cases signed <;> decide

theorem Fraction.all_isNumeralChar {behind fraction : List Char}
    (fractional : Fraction behind fraction) : behind.all isNumeralChar := by
  cases fractional with
  | none => rfl
  | some figures =>
    rw [List.all_cons, all_isNumeralChar_of_all_isFigure figures.all_isFigure]
    rfl

theorem Power.all_isNumeralChar {power : List Char} {exponent : Int}
    (powered : Power power exponent) : power.all isNumeralChar := by
  cases powered with
  | none => rfl
  | some marked signed figures =>
    rw [List.all_cons, List.all_append, signed.all_isNumeralChar,
      all_isNumeralChar_of_all_isFigure figures.all_isFigure]
    rcases marked with rfl | rfl <;> rfl

theorem all_isNumeralChar_decimal {sign written digits : List Char} {negative : Bool}
    (signed : Sign sign negative) (decimals : Decimals written digits) :
    (sign ++ written).all isNumeralChar := by
  rw [List.all_append, signed.all_isNumeralChar,
    all_isNumeralChar_of_all_isFigure decimals.figures.all_isFigure]
  rfl

theorem all_isNumeralChar_floating {sign whole digits behind fraction power : List Char}
    {negative : Bool} {exponent : Int} (signed : Sign sign negative)
    (decimals : Decimals whole digits) (fractional : Fraction behind fraction)
    (powered : Power power exponent) :
    (sign ++ (whole ++ (behind ++ power))).all isNumeralChar := by
  have front := all_isNumeralChar_decimal signed decimals
  rw [← List.append_assoc, List.all_append, front, List.all_append, fractional.all_isNumeralChar,
    powered.all_isNumeralChar]
  rfl

/-- A text of the characters of numbers does not begin with a mark of a base. -/
theorem integer?_eq_decimal? {word : List Char} (inside : word.all isNumeralChar) :
    integer? word = decimal? word := by
  have none {c : Char} {others : List Char} (other : isNumeralChar c = false)
      (same : word = '0' :: c :: others) : False := by
    rw [same, List.all_cons, List.all_cons, other, Bool.false_and, Bool.and_false] at inside
    cases inside
  unfold integer?
  split
  · exact (none rfl rfl).elim
  · exact (none rfl rfl).elim
  · exact (none rfl rfl).elim
  · rfl

/-- A number with a fraction or a power of ten is no whole one. -/
theorem IsFloating.integer?_eq {word : List Char} {value : Floating}
    (number : IsFloating word value) : integer? word = none := by
  cases number with
  | @decimal sign whole digits behind fraction power negative exponent signed decimals fractional
      powered some =>
    have marked : (whole ++ (behind ++ power)).any endsWhole := by
      rw [List.any_append, List.any_append]
      cases fractional with
      | some _ => simp [endsWhole]
      | none =>
        cases powered with
        | none => exact absurd rfl (some.resolve_left fun behind => behind rfl)
        | some marked _ _ => rcases marked with rfl | rfl <;> simp [endsWhole]
    rw [integer?_eq_decimal? (all_isNumeralChar_floating signed decimals fractional powered),
      decimal?, signed.splitSign_figures decimals.figures]
    simp [marked]
  | infinite signed => cases signed <;> rfl
  | nan signed => cases signed <;> rfl

theorem isWordChar_of {p : Char → Bool} {c : Char}
    (apart : [' ', '\t', '\n', '\r', '#', ',', '=', '[', ']', '\x7b', '\x7d'].all (!p ·))
    (holds : p c) : isWordChar c := by
  cases word : isWordChar c with
  | true => rfl
  | false =>
    have among : c ∈ [' ', '\t', '\n', '\r', '#', ',', '=', '[', ']', '\x7b', '\x7d'] := by
      simp only [isWordChar, isBlank, Bool.not_eq_false', Bool.or_eq_true, beq_iff_eq, or_assoc]
        at word
      simpa only [List.mem_cons, List.not_mem_nil, or_false] using word
    have other := List.all_eq_true.mp apart c among
    rw [holds] at other
    cases other

theorem twoDigits?_eq_some {word rest : List Char} {number : Nat}
    (read : twoDigits? word = some (number, rest)) :
    ∃ a b, word = a :: b :: rest ∧ a.isDigit ∧ b.isDigit := by
  unfold twoDigits? at read
  split at read
  · split at read
    · rename_i digits
      cases read
      exact ⟨_, _, rfl, digits⟩
    · cases read
  · cases read

theorem expect?_eq_some {c : Char} {word rest : List Char} (read : expect? c word = some rest) :
    word = c :: rest := by
  unfold expect? at read
  split at read
  · split at read
    · rename_i same
      cases read
      rw [same]
    · cases read
  · cases read

/-- A word begins with digits and goes on with a mark behind them. -/
def GoesOn (mark : Char) (word : List Char) : Prop :=
  ∃ digits rest, word = digits ++ mark :: rest ∧ digits ≠ [] ∧ digits.all Char.isDigit

theorem goesOn_time? {word rest : List Char} (read : time? word = some rest) : GoesOn ':' word := by
  simp only [time?, upTo?, Option.bind_eq_bind, Option.bind_eq_some_iff] at read
  obtain ⟨behind, ⟨⟨hour, behindHour⟩, hours, atMost⟩, behindMark, marked, _⟩ := read
  obtain ⟨a, b, rfl, first, second⟩ := twoDigits?_eq_some hours
  dsimp only at atMost
  split at atMost
  · cases atMost
    obtain rfl := expect?_eq_some marked
    exact ⟨[a, b], behindMark, rfl, List.cons_ne_nil _ _, by simp [first, second]⟩
  · cases atMost

theorem goesOn_date? {word rest : List Char} (read : date? word = some rest) : GoesOn '-' word := by
  simp only [date?, Option.bind_eq_bind, Option.bind_eq_some_iff] at read
  obtain ⟨⟨century, behindCentury⟩, hundreds, ⟨decade, behindYear⟩, years, behindMark, marked, _⟩ :=
    read
  obtain ⟨a, b, rfl, first, second⟩ := twoDigits?_eq_some hundreds
  dsimp only at years
  obtain ⟨c, d, rfl, third, fourth⟩ := twoDigits?_eq_some years
  dsimp only at marked
  obtain rfl := expect?_eq_some marked
  exact ⟨[a, b, c, d], behindMark, rfl, List.cons_ne_nil _ _,
    by simp [first, second, third, fourth]⟩

/-- A date or a time goes on behind its first digits with a minus or a colon. -/
theorem goesOn_moment {word : List Char} (moment : isTime word || isDate word || isDateTime word) :
    GoesOn ':' word ∨ GoesOn '-' word := by
  simp only [Bool.or_eq_true, isTime, isDate, beq_iff_eq] at moment
  rcases moment with (time | date) | both
  · exact .inl (goesOn_time? time)
  · exact .inr (goesOn_date? date)
  · unfold isDateTime at both
    split at both
    · rename_i date
      exact .inr (goesOn_date? date)
    · cases both

/-- What is common to all written numbers. -/
structure IsNumeral (word : List Char) : Prop where
  inside : word.all isWordChar
  first : ∃ c others, word = c :: others ∧ c ∉ ['t', 'f', '"', '\'']
  noMoment : (isTime word || isDate word || isDateTime word) = false

/-- Digits and underscores are taken up to another character. -/
theorem not_goesOn {mark : Char} {front tail : List Char} (other : isFigure mark = false)
    (inside : front.all isFigure) (ends : ∀ c ∈ tail.head?, isFigure c = false)
    (apart : tail.head? ≠ some mark) : ¬GoesOn mark (front ++ tail) := by
  rintro ⟨digits, rest, same, _, all⟩
  have figures : digits.all isFigure :=
    List.all_eq_true.mpr fun c member => by simp [isFigure, List.all_eq_true.mp all c member]
  have left := (takeWhile_dropWhile_append inside ends).2
  have last : ∀ c ∈ (mark :: rest).head?, isFigure c = false := by
    rintro c ⟨⟩
    exact other
  have right := (takeWhile_dropWhile_append figures last).2
  rw [same, right] at left
  exact apart (by rw [← left]; rfl)

theorem not_goesOn_of_head {mark c : Char} {others : List Char} (notDigit : c.isDigit = false) :
    ¬GoesOn mark (c :: others) := by
  rintro ⟨digits, rest, same, some, all⟩
  obtain ⟨d, more, rfl⟩ := List.exists_cons_of_ne_nil some
  obtain ⟨rfl, _⟩ := List.cons.inj same
  rw [List.all_cons, notDigit] at all
  cases all

theorem noMoment_of {word : List Char} (noTime : ¬GoesOn ':' word) (noDate : ¬GoesOn '-' word) :
    (isTime word || isDate word || isDateTime word) = false :=
  Bool.eq_false_iff.mpr fun moment => (goesOn_moment moment).elim noTime noDate

/-- Behind an optional sign, digits and underscores do not go on like a date or a time. -/
theorem Sign.noMoment {sign front : List Char} {negative : Bool} (signed : Sign sign negative)
    (tail : List Char) (inside : front.all isFigure)
    (ends : ∀ c ∈ tail.head?, isFigure c = false ∧ c ≠ ':' ∧ c ≠ '-') :
    (isTime (sign ++ (front ++ tail)) || isDate (sign ++ (front ++ tail)) ||
      isDateTime (sign ++ (front ++ tail))) = false := by
  have stops : ∀ c ∈ tail.head?, isFigure c = false := fun c member => (ends c member).1
  cases signed with
  | none =>
    rw [List.nil_append]
    refine noMoment_of (not_goesOn (by decide) inside stops ?_)
      (not_goesOn (by decide) inside stops ?_)
    · exact fun same => (ends _ same).2.1 rfl
    · exact fun same => (ends _ same).2.2 rfl
  | plus => exact noMoment_of (not_goesOn_of_head rfl) (not_goesOn_of_head rfl)
  | minus => exact noMoment_of (not_goesOn_of_head rfl) (not_goesOn_of_head rfl)

theorem all_isWordChar_of {p : Char → Bool} {word : List Char}
    (apart : [' ', '\t', '\n', '\r', '#', ',', '=', '[', ']', '\x7b', '\x7d'].all (!p ·))
    (inside : word.all p) : word.all isWordChar :=
  List.all_eq_true.mpr fun c member => isWordChar_of apart (List.all_eq_true.mp inside c member)

/-- A sign and digits begin a word that is no boolean and no string. -/
theorem Sign.first {sign written digits : List Char} {negative : Bool} (signed : Sign sign negative)
    (figures : Figures Char.isDigit written digits) (rest : List Char) :
    ∃ c others, sign ++ (written ++ rest) = c :: others ∧ c ∉ ['t', 'f', '"', '\''] := by
  cases signed with
  | none =>
    obtain ⟨d, others, rfl, digit⟩ := figures.exists_cons
    refine ⟨d, others ++ rest, rfl, fun among => ?_⟩
    simp only [List.mem_cons, List.not_mem_nil, or_false] at among
    rcases among with rfl | rfl | rfl | rfl <;> cases digit
  | plus => exact ⟨_, _, rfl, by decide⟩
  | minus => exact ⟨_, _, rfl, by decide⟩

theorem IsInteger.isNumeral {word : List Char} {whole : Whole} (number : IsInteger word whole) :
    IsNumeral word := by
  cases number with
  | @decimal sign written digits negative signed decimals =>
    have figures := decimals.figures
    refine ⟨?_, ?_, ?_⟩
    · exact all_isWordChar_of (by decide) (all_isNumeralChar_decimal signed decimals)
    · simpa using signed.first figures []
    · have word := signed.noMoment [] figures.all_isFigure nofun
      rwa [List.append_nil] at word
  | @marked mark base written digits based figures =>
    simp only [List.mem_cons, Prod.mk.injEq, List.not_mem_nil, or_false] at based
    refine ⟨?_, ⟨'0', _, rfl, by decide⟩, ?_⟩
    · have marks : isWordChar mark := by
        rcases based with ⟨rfl, _⟩ | ⟨rfl, _⟩ | ⟨rfl, _⟩ <;> rfl
      have behind : written.all isWordChar := by
        refine all_isWordChar_of (p := fun c => isDigitOf base c || c == '_') ?_ figures.all_written
        rcases based with ⟨_, rfl⟩ | ⟨_, rfl⟩ | ⟨_, rfl⟩ <;> decide
      rw [List.all_cons, List.all_cons, marks, behind]
      rfl
    · have zero : ['0'].all isFigure := rfl
      refine Sign.none.noMoment (mark :: written) zero ?_
      rintro c ⟨⟩
      rcases based with ⟨rfl, _⟩ | ⟨rfl, _⟩ | ⟨rfl, _⟩ <;> decide

theorem IsFloating.isNumeral {word : List Char} {value : Floating} (number : IsFloating word value) :
    IsNumeral word := by
  cases number with
  | @decimal sign whole digits behind fraction power negative exponent signed decimals fractional
      powered some =>
    have figures := decimals.figures
    refine ⟨?_, signed.first figures _, signed.noMoment _ figures.all_isFigure ?_⟩
    · exact all_isWordChar_of (by decide)
        (all_isNumeralChar_floating signed decimals fractional powered)
    · cases fractional with
      | some _ =>
        rintro c ⟨⟩
        decide
      | none =>
        cases powered with
        | none => exact nofun
        | some marked _ _ =>
          rintro c ⟨⟩
          rcases marked with rfl | rfl <;> decide
  | infinite signed =>
    have word := signed.noMoment ['i', 'n', 'f'] (List.all_nil)
      (by rintro c ⟨⟩; decide)
    cases signed <;> exact ⟨by decide, ⟨_, _, rfl, by decide⟩, word⟩
  | nan signed =>
    have word := signed.noMoment ['n', 'a', 'n'] (List.all_nil)
      (by rintro c ⟨⟩; decide)
    cases signed <;> exact ⟨by decide, ⟨_, _, rfl, by decide⟩, word⟩

/-- A word that is neither a boolean nor a date or a time is a number. -/
theorem IsNumeral.word?_eq {word : List Char} (numeral : IsNumeral word) :
    word? word = ((integer? word).map .integer).or ((floating? word).map .floating) := by
  obtain ⟨_, ⟨c, others, rfl, first⟩, noMoment⟩ := numeral
  simp only [List.mem_cons, List.not_mem_nil, or_false, not_or] at first
  rw [word?, if_neg, if_neg, noMoment, if_neg (by decide)]
  · exact fun same => first.2.1 (List.cons.inj same).1
  · exact fun same => first.1 (List.cons.inj same).1

theorem IsInteger.word?_eq {word : List Char} {whole : Whole} (number : IsInteger word whole) :
    word? word = some (.integer whole) := by
  rw [number.isNumeral.word?_eq, number.integer?_eq]
  rfl

theorem IsFloating.word?_eq {word : List Char} {value : Floating} (number : IsFloating word value) :
    word? word = some (.floating value) := by
  rw [number.isNumeral.word?_eq, number.integer?_eq, number.floating?_eq]
  rfl

end EnumNames.Toml
