import EnumNames.Proofs.Toml.Scalars
import EnumNames.Proofs.Toml.Table

/-! Keys and values are read as the grammar has them. The induction is on how deep brackets may open
inside one another; what holds of a value without brackets is all that it starts from. -/
namespace EnumNames.Toml

/-! ### What keys and values begin with -/

/-- A text begins with a word, a string or an opening bracket. -/
def Opens (text : List Char) : Prop :=
  ∃ c others, text = c :: others ∧ (isWordChar c ∨ c = '[' ∨ c = '\x7b')

/-- A text begins with a word or a string. -/
def OpensWord (text : List Char) : Prop := ∃ c others, text = c :: others ∧ isWordChar c

section
variable {text : List Char}

theorem OpensWord.opens (opens : OpensWord text) : Opens text := by
  obtain ⟨c, others, begins, word⟩ := opens
  exact ⟨c, others, begins, .inl word⟩

theorem Opens.exists_cons (opens : Opens text) : ∃ c others, text = c :: others ∧
    isBlank c = false ∧ c ≠ '\n' ∧ c ≠ '\r' ∧ c ≠ '#' ∧ c ≠ ']' ∧ c ≠ '\x7d' := by
  obtain ⟨c, others, begins, first⟩ := opens
  refine ⟨c, others, begins, ?_⟩
  rcases first with word | rfl | rfl
  · simp only [isWordChar, Bool.not_eq_true', Bool.or_eq_false_iff, beq_eq_false_iff_ne] at word
    simp [word]
  · decide
  · decide

theorem Opens.skipBlanks_eq (opens : Opens text) : skipBlanks text = text := by
  obtain ⟨c, others, rfl, notBlank, _⟩ := opens.exists_cons
  exact List.dropWhile_cons_of_neg (by simp [notBlank])

theorem Opens.skipSpace_eq (opens : Opens text) : skipSpace text = text := by
  obtain ⟨c, others, rfl, notBlank, notFeed, notReturn, notMark, _⟩ := opens.exists_cons
  rw [skipSpace_cons notReturn, notBlank]
  simp [notFeed, notMark]

theorem symbol?_eq_none {c : Char} (other : text.head? ≠ some c) : symbol? c text = none := by
  cases text with
  | nil => rfl
  | cons d rest => exact if_neg fun same => other (by rw [same]; rfl)

theorem reads_symbol? (c : Char) (rest : List Char) : Reads (symbol? c) (c :: rest) () rest :=
  ⟨Nat.lt_succ_self _, if_pos rfl⟩

/-- No closing bracket opens a value. -/
theorem Opens.symbol?_eq_none (opens : Opens text) {closing : Char}
    (closes : closing = ']' ∨ closing = '\x7d') : symbol? closing text = none := by
  obtain ⟨c, others, rfl, _, _, _, _, notBracket, notBrace⟩ := opens.exists_cons
  refine Toml.symbol?_eq_none fun same => ?_
  obtain rfl := Option.some.inj same
  rcases closes with rfl | rfl
  · exact notBracket rfl
  · exact notBrace rfl

end

/-! ### Where words end -/

/-- What a line may end with ends a word. -/
theorem Tail.stops {text rest : List Char} (tail : Tail text rest) : Stops text := by
  have atEnd {text : List Char} (ends : Ends text) : ∀ c ∈ text.head?, isWordChar c = false := by
    cases ends with
    | text => exact nofun
    | line lineEnd =>
      cases lineEnd with
      | lineFeed =>
        rintro c ⟨⟩
        rfl
      | both =>
        rintro c ⟨⟩
        rfl
  induction tail with
  | none ends =>
    refine ⟨atEnd ends, ?_⟩
    rw [skipBlanks, ends.dropWhile_eq rfl rfl]
    exact atEnd ends
  | blank first _ ih =>
    refine ⟨by simp [isWordChar, first], ?_⟩
    rw [skipBlanks, List.dropWhile_cons_of_pos first]
    exact ih.behind
  | comment => exact ⟨by simp [isWordChar], by simp [skipBlanks, isWordChar, isBlank]⟩

/-- Space in front of a mark that belongs to no word ends a word. -/
theorem Space.stops {text rest : List Char} {c : Char} (space : Space text (c :: rest))
    (other : isWordChar c = false) (notBlank : isBlank c = false) : Stops text := by
  generalize whole : c :: rest = behind at space
  cases space with
  | none =>
    subst whole
    refine ⟨by simp [other], ?_⟩
    rw [skipBlanks, List.dropWhile_cons_of_neg (by simp [notBlank])]
    simp [other]
  | blank first others =>
    subst whole
    refine ⟨by simp [isWordChar, first], ?_⟩
    rw [skipBlanks, List.dropWhile_cons_of_pos first]
    exact (others.stops other notBlank).behind
  | line lineEnd _ => exact (Tail.none (.line lineEnd)).stops
  | comment inside lineEnd _ => exact (Tail.comment inside (.line lineEnd)).stops

/-! ### Keys -/

theorem OneLine.opens {text rest : List Char} {value : String} (single : OneLine text value rest) :
    OpensWord text := by
  cases single <;> exact ⟨_, _, rfl, rfl⟩

theorem SingleKey.opens {text rest : List Char} {name : String} (key : SingleKey text name rest) :
    OpensWord text := by
  cases key with
  | @bare name rest nonempty inside _ =>
    obtain ⟨c, others, rfl⟩ := List.exists_cons_of_ne_nil nonempty
    rw [List.all_cons, Bool.and_eq_true] at inside
    exact ⟨c, others ++ rest, rfl, isWordChar_of (by decide) inside.1⟩
  | quoted single => exact single.opens

theorem Dotted.opens {text rest : List Char} {path : Path} (dotted : Dotted text path rest) :
    OpensWord text := by
  cases dotted with
  | last key => exact key.opens
  | next key _ _ _ => exact key.opens

theorem SingleKey.reads {text rest : List Char} {name : String} (key : SingleKey text name rest) :
    Reads keyName? text name rest := by
  cases key with
  | @bare name rest nonempty inside ends =>
    obtain ⟨taken, dropped⟩ := takeWhile_dropWhile_append inside ends
    have some : (name ++ rest).takeWhile isBareKeyChar ≠ [] := taken.symm ▸ nonempty
    refine ⟨by simpa using List.length_pos_iff.mpr nonempty, (dif_neg some).trans ?_⟩
    simp only [taken, dropped]
  | quoted single =>
    have none : text.takeWhile isBareKeyChar = [] := by
      cases single <;> rfl
    obtain ⟨shorter, same⟩ := single.reads
    exact ⟨shorter, (dif_pos none).trans same⟩

theorem Dotted.keys?_eq {text rest : List Char} {path : Path} (dotted : Dotted text path rest)
    (noPoint : symbol? '.' (skipBlanks rest) = none) {most : Nat} {parents : List Key}
    (few : parents.length + path.parents.length ≤ most) :
    keys? most parents text = some (⟨parents.reverse ++ path.parents, path.last⟩, rest) := by
  induction dotted generalizing parents with
  | last key =>
    obtain ⟨_, same⟩ := key.reads
    rw [keys?, same]
    simp only [noPoint, List.append_nil]
    exact if_pos few
  | @next text behind atKey between rest name path key before after others ih =>
    obtain ⟨_, same⟩ := key.reads
    obtain ⟨_, point⟩ : Reads (symbol? '.') (skipBlanks between) () behind := by
      rw [before.skipBlanks_eq]
      exact reads_symbol? '.' behind
    have next : skipBlanks behind = atKey :=
      after.skipBlanks_eq.trans others.opens.opens.skipBlanks_eq
    have room : (⟨name, ⟨text, between⟩⟩ :: parents).length + path.parents.length ≤ most := by
      simp only [List.length_cons] at few ⊢
      omega
    rw [keys?, same]
    simp only [point, next, ih noPoint room]
    simp

theorem Within.reads {most : Nat} {text rest : List Char} {path : Path}
    (within : Within most text path rest) (noPoint : symbol? '.' (skipBlanks rest) = none) :
    Reads (path? most) text path rest := by
  obtain ⟨dotted, few⟩ := within
  have whole := @Dotted.keys?_eq _ _ _ dotted noPoint most [] (by simpa using few)
  exact exists_of?_eq whole

/-! ### Values -/

theorem Scalar.opens {text rest : List Char} {value : Value} (scalar : Scalar text value rest) :
    OpensWord text := by
  have ofMeans {word : List Char} {value : Value} (means : Means word value) :
      OpensWord (word ++ rest) := by
    obtain ⟨_, ⟨c, others, rfl, word, _⟩, _⟩ := means
    exact ⟨c, others ++ rest, rfl, word⟩
  cases scalar with
  | string quoted =>
    cases quoted with
    | oneLine single => exact single.opens
    | basic => exact ⟨_, _, rfl, rfl⟩
    | literal => exact ⟨_, _, rfl, rfl⟩
  | boolean value => exact ofMeans (means_boolean value)
  | integer number => exact ofMeans (number.isNumeral.means number.word?_eq)
  | floating number => exact ofMeans (number.isNumeral.means number.word?_eq)
  | moment moment => exact ofMeans moment.means

theorem Valued.opens {most nesting : Nat} {text rest : List Char} {value : Value}
    (valued : Valued most nesting text value rest) : Opens text := by
  cases nesting with
  | zero => exact (Scalar.opens valued).opens
  | succ nesting =>
    cases valued with
    | scalar scalar => exact scalar.opens.opens
    | array => exact ⟨_, _, rfl, .inr (.inl rfl)⟩
    | table => exact ⟨_, _, rfl, .inr (.inr rfl)⟩

/-- A reader finds what a form has, wherever no word goes on behind it. -/
structure Completes {α : Type} (reader : Reader α) (form : Form α) : Prop where
  opens : ∀ {text found rest}, form text found rest → Opens text
  reads : ∀ {text found rest}, form text found rest → Stops rest → Reads reader text found rest

theorem Completes.items?_eq {α : Type} {reader : Reader α} {item : Form α}
    (completes : Completes reader item) {closing : Char} (closes : closing = ']' ∨ closing = '\x7d')
    {text rest : List Char} {found : List α} (items : Items closing item text found rest)
    (read : List α) : items? closing reader read text = some (read.reverse ++ found, rest) := by
  have noWord : isWordChar closing = false ∧ isBlank closing = false := by
    rcases closes with rfl | rfl <;> decide
  -- The bracket itself is no space, so space in front of it is skipped up to it.
  have atClosing (rest : List Char) : skipSpace (closing :: rest) = closing :: rest := by
    rcases closes with rfl | rfl <;> rw [skipSpace_cons (by decide)] <;> rfl
  have closed {text rest : List Char} (space : Space text (closing :: rest)) :
      Reads (symbol? closing) (skipSpace text) () rest := by
    rw [space.skipSpace_eq, atClosing]
    exact reads_symbol? closing rest
  induction items generalizing read with
  | none space =>
    obtain ⟨_, same⟩ := closed space
    rw [items?]
    simp only [same, List.append_nil]
  | @last text atItem behind rest found before first after =>
    have here : skipSpace text = atItem :=
      before.skipSpace_eq.trans (completes.opens first).skipSpace_eq
    obtain ⟨_, item⟩ := completes.reads first (after.stops noWord.1 noWord.2)
    have noComma : symbol? ',' (skipSpace behind) = none := by
      rw [after.skipSpace_eq, atClosing]
      refine symbol?_eq_none ?_
      rcases closes with rfl | rfl <;> simp
    obtain ⟨_, same⟩ := closed after
    have opening := (completes.opens first).symbol?_eq_none closes
    subst here
    rw [items?]
    simp only [opening, item, noComma, same,
      List.reverse_cons]
  | @next text atItem behind next rest found others before first after _ ih =>
    have here : skipSpace text = atItem :=
      before.skipSpace_eq.trans (completes.opens first).skipSpace_eq
    obtain ⟨_, item⟩ := completes.reads first (after.stops (by decide) (by decide))
    obtain ⟨_, comma⟩ : Reads (symbol? ',') (skipSpace behind) () next := by
      rw [after.skipSpace_eq, skipSpace_cons (by decide)]
      exact reads_symbol? ',' next
    have opening := (completes.opens first).symbol?_eq_none closes
    subst here
    rw [items?]
    simp only [opening, item, comma, ih, List.reverse_cons,
      List.append_assoc]
    rfl

theorem Completes.assigns {most : Nat} {reader : Reader Value} {value : Form Value}
    (completes : Completes reader value) (spacing : Spacing) :
    Completes (assignment? most spacing reader) (Assigns most value) := by
  have skip {text rest : List Char} (blanks : Blanks text rest) (opens : spacing.skip rest = rest) :
      spacing.skip text = rest := by
    cases spacing with
    | oneLine => exact blanks.skipBlanks_eq.trans opens
    | manyLines => exact blanks.skipSpace_eq.trans opens
  constructor
  · rintro text found rest ⟨within, _, _, _⟩
    exact within.dotted.opens.opens
  · rintro text found rest ⟨within, before, after, written⟩ stops
    rename_i behindPath behindSign atValue path given
    have atSign : spacing.skip behindPath = '=' :: behindSign := by
      refine skip before ?_
      cases spacing with
      | oneLine => rfl
      | manyLines => exact skipSpace_cons (by decide) _
    have atStart : spacing.skip behindSign = atValue := by
      refine skip after ?_
      cases spacing with
      | oneLine => exact (completes.opens written).skipBlanks_eq
      | manyLines => exact (completes.opens written).skipSpace_eq
    obtain ⟨_, path⟩ := within.reads (by rw [before.skipBlanks_eq]; rfl)
    obtain ⟨_, sign⟩ : Reads (symbol? '=') (spacing.skip behindPath) () behindSign := by
      rw [atSign]
      exact reads_symbol? '=' behindSign
    subst atStart
    obtain ⟨_, given⟩ := completes.reads written stops
    exact ⟨_, by rw [assignment?, path]; simp only [sign, given]; rfl⟩

/-- What opens no bracket is a string or a word. -/
theorem OpensWord.value?_eq {text : List Char} (opens : OpensWord text) (most nesting : Nat) :
    value? most nesting text = scalar? text := by
  obtain ⟨c, others, rfl, word⟩ := opens
  rw [value?]
  · rintro _ inner _ same
    obtain ⟨rfl, _⟩ := List.cons.inj same
    cases word
  · rintro _ inner _ same
    obtain ⟨rfl, _⟩ := List.cons.inj same
    cases word

theorem Scalar.reads_value? {text rest : List Char} {value : Value}
    (scalar : Scalar text value rest) (stops : Stops rest) (most nesting : Nat) :
    Reads (value? most nesting) text value rest := by
  obtain ⟨shorter, same⟩ := scalar.reads stops
  exact ⟨shorter, (scalar.opens.value?_eq most nesting).trans same⟩

/-- Values are read as the grammar has them. -/
theorem completes_value? (most nesting : Nat) :
    Completes (value? most nesting) (Valued most nesting) := by
  induction nesting with
  | zero => exact ⟨Valued.opens, fun scalar stops => Scalar.reads_value? scalar stops most 0⟩
  | succ nesting ih =>
    refine ⟨Valued.opens, fun valued stops => ?_⟩
    cases valued with
    | scalar scalar => exact scalar.reads_value? stops most _
    | array items =>
      have whole := ih.items?_eq (.inl rfl) items []
      obtain ⟨_, read⟩ := exists_of?_eq whole
      exact ⟨_, by rw [value?, read]; rfl⟩
    | table items filled =>
      have whole := (ih.assigns .manyLines).items?_eq (.inr rfl) items []
      obtain ⟨_, read⟩ := exists_of?_eq whole
      exact ⟨_, by rw [value?, read, Option.bind_some, List.reverse_nil, List.nil_append,
        filled.inlineTable?_eq]; rfl⟩

end EnumNames.Toml
