import EnumNames.Proofs.Toml.Space

/-! Strings are read as the grammar has them: in each of the four forms the readers find the
characters that it stands for and leave what is behind its closing marks. -/
namespace EnumNames.Toml

/-- A reader finds something at the beginning of a text and leaves the rest. -/
def Reads {α : Type} (reader : Reader α) (text : List Char) (found : α) (rest : List Char) : Prop :=
  ∃ shorter, reader text = some ⟨found, rest, shorter⟩

theorem Reads.after {α : Type} {reader : Reader α} {c : Char} {text rest : List Char} {found : α}
    (reads : Reads reader text found rest) :
    ∃ shorter, (reader text).map (Reading.after (c := c)) = some ⟨found, rest, shorter⟩ := by
  obtain ⟨shorter, same⟩ := reads
  exact ⟨_, by rw [same]; rfl⟩

theorem reads_escaped?_of_short {letter c : Char} (rest : List Char)
    (short : plainEscape? letter = some c) : Reads escaped? (letter :: rest) c rest := by
  unfold plainEscape? at short
  split at short
  all_goals cases short
  all_goals exact ⟨_, rfl⟩

theorem reads_numberedChar? {digits : List Char} {c : Char} (positive : 0 < digits.length)
    (rest : List Char) (hex : digits.all isHexDigit) (same : ofDigits 16 digits = c.toNat) :
    Reads (numberedChar? digits.length positive) (digits ++ rest) c rest := by
  have fits : digits.length ≤ (digits ++ rest).length ∧
      ((digits ++ rest).take digits.length).all isHexDigit ∧
      (ofDigits 16 ((digits ++ rest).take digits.length)).isValidChar := by
    rw [List.take_left, same]
    exact ⟨by simp, hex, c.valid⟩
  have found : Char.ofNat (ofDigits 16 ((digits ++ rest).take digits.length)) = c := by
    rw [List.take_left, same, Char.ofNat_toNat]
  refine ⟨by simpa using positive, (dif_pos fits).trans ?_⟩
  simp only [found, List.drop_left]

theorem reads_escaped?_of_number {kind c : Char} {digits : List Char} (rest : List Char)
    (size : (kind, digits.length) ∈ [('x', 2), ('u', 4), ('U', 8)])
    (hex : digits.all isHexDigit) (same : ofDigits 16 digits = c.toNat) :
    Reads escaped? (kind :: (digits ++ rest)) c rest := by
  have positive : 0 < digits.length := by
    simp only [List.mem_cons, Prod.mk.injEq, List.not_mem_nil, or_false] at size
    omega
  have digitsRead := (reads_numberedChar? positive rest hex same).after (c := kind)
  simp only [List.mem_cons, Prod.mk.injEq, List.not_mem_nil, or_false] at size
  rcases size with ⟨rfl, two⟩ | ⟨rfl, four⟩ | ⟨rfl, eight⟩
  · simp only [two] at digitsRead
    exact digitsRead
  · simp only [four] at digitsRead
    exact digitsRead
  · simp only [eight] at digitsRead
    exact digitsRead

/-- A character of a basic string is read as it is spelled. -/
theorem Spelled.basic?_eq {text next : List Char} {c : Char} (spelled : Spelled text c next)
    (read : List Char) : basic? read text = basic? (c :: read) next := by
  cases spelled with
  | raw inside mark slash =>
    rw [basic?, if_pos inside]
    · exact mark
    · exact slash
  | @letter letter c rest short =>
    obtain ⟨shorter, same⟩ := reads_escaped?_of_short next short
    rw [basic?, same]
  | @number kind c digits rest size hex number =>
    obtain ⟨shorter, same⟩ := reads_escaped?_of_number next size hex number
    rw [basic?, same]

theorem Basic.basic?_eq {text chars rest : List Char} (basic : Basic text chars rest)
    (read : List Char) : basic? read text = some (read.reverse ++ chars, rest) := by
  induction basic generalizing read with
  | close => simp [basic?]
  | char first _ ih =>
    rw [first.basic?_eq, ih, List.reverse_cons, List.append_assoc]
    rfl

theorem Literal.literal?_eq {text chars rest : List Char} (literal : Literal text chars rest)
    (read : List Char) : literal? read text = some (read.reverse ++ chars, rest) := by
  induction literal generalizing read with
  | close => simp [literal?]
  | char inside mark _ ih =>
    rw [literal?, if_pos inside, ih, List.reverse_cons, List.append_assoc]
    · rfl
    · exact mark

/-! ### Strings of several lines -/

theorem leadingMarks_replicate {mark : Char} {rest : List Char} (count : Nat)
    (alone : rest.head? ≠ some mark) :
    leadingMarks mark (List.replicate count mark ++ rest) = count := by
  have stops : rest.takeWhile (· == mark) = [] := by
    cases rest with
    | nil => rfl
    | cons c rest =>
      refine List.takeWhile_cons_of_neg ?_
      simpa using alone
  rw [leadingMarks, List.takeWhile_append_of_pos (by simp), stops, List.append_nil,
    List.length_replicate]

section
variable {mark : Char} {unit : List Char → List Char → List Char → Prop}
  {reader : List Char → List Char → Option (List Char × List Char)}

/-- What the two readers of several lines have in common. -/
structure ReadsUnits (mark : Char) (unit : List Char → List Char → List Char → Prop)
    (reader : List Char → List Char → Option (List Char × List Char)) : Prop where
  marks : ∀ read text, reader read (mark :: text) =
    if leadingMarks mark (mark :: text) < 3 then
      reader (List.replicate (leadingMarks mark (mark :: text)) mark ++ read)
        ((mark :: text).drop (leadingMarks mark (mark :: text)))
    else
      some ((List.replicate (closing (leadingMarks mark (mark :: text)) - 3) mark ++ read).reverse,
        (mark :: text).drop (closing (leadingMarks mark (mark :: text))))
  lineFeed : ∀ read text, reader read ('\n' :: text) = reader ('\n' :: read) text
  both : ∀ read text, reader read ('\r' :: '\n' :: text) = reader ('\n' :: '\r' :: read) text
  unit : ∀ {text chars next}, unit text chars next →
    ∀ read, reader read text = reader (chars.reverse ++ read) next

theorem ReadsUnits.read_eq (reads : ReadsUnits mark unit reader) {text chars rest : List Char}
    (multiline : Multiline mark unit text chars rest) (read : List Char) :
    reader read text = some (read.reverse ++ chars, rest) := by
  induction multiline generalizing read with
  | @close count rest few alone =>
    have marks := leadingMarks_replicate (count + 3) alone
    have whole : List.replicate (count + 3) mark ++ rest =
      mark :: (List.replicate (count + 2) mark ++ rest) := rfl
    have all : closing (count + 3) = count + 3 := Nat.min_eq_left (by omega)
    rw [whole, reads.marks, ← whole, marks, if_neg (by omega), all, Nat.add_sub_cancel,
      List.drop_left' List.length_replicate, List.reverse_append, List.reverse_replicate]
  | @marks count text chars rest few alone _ ih =>
    have marks := leadingMarks_replicate count alone
    obtain ⟨fewer, rfl⟩ := Nat.exists_eq_add_one_of_ne_zero (by omega : count ≠ 0)
    have whole : List.replicate (fewer + 1) mark ++ text =
      mark :: (List.replicate fewer mark ++ text) := rfl
    rw [whole, reads.marks, ← whole, marks, if_pos (by omega),
      List.drop_left' List.length_replicate, ih, List.reverse_append, List.reverse_replicate,
      List.append_assoc]
  | lineFeed _ ih => rw [reads.lineFeed, ih]; simp
  | both _ ih => rw [reads.both, ih]; simp
  | unit first _ ih => rw [reads.unit first, ih]; simp

end

theorem LineEnd.reads {text rest : List Char} (lineEnd : LineEnd text rest) :
    Reads lineEnd? text () rest := by
  cases lineEnd <;> exact ⟨_, rfl⟩

theorem Gap.skipGap_eq {text rest : List Char} (gap : Gap text rest) :
    skipGap text = skipGap rest := by
  induction gap with
  | none => rfl
  | @blank c text rest first _ ih =>
    rw [skipGap, first, Bool.true_or, if_pos rfl, ih]
    exact fun _ same => absurd same (ne_of_isBlank first)
  | lineEnd first _ ih =>
    rw [← ih]
    cases first with
    | lineFeed =>
      rw [skipGap]
      · rfl
      · exact fun _ same => absurd same (by decide)
    | both => rw [skipGap]

theorem Solid.skipGap_eq {text : List Char} (solid : Solid text) : skipGap text = text := by
  cases text with
  | nil => rw [skipGap]
  | cons c rest =>
    have notBlank := solid.noBlank c rfl
    have notFeed : c ≠ '\n' := fun same => solid.noLineEnd rest (same ▸ .lineFeed)
    rw [skipGap, notBlank, if_neg (by simpa using notFeed)]
    rintro tail rfl rfl
    exact solid.noLineEnd tail .both

theorem reads_joined? {text line behind next : List Char} (blanks : Blanks text line)
    (lineEnd : LineEnd line behind) (gap : Gap behind next) (solid : Solid next) :
    Reads joined? text () next := by
  have atLine : skipBlanks text = line := by
    rw [blanks.skipBlanks_eq, skipBlanks, (Ends.line lineEnd).dropWhile_eq rfl rfl]
  have atNext : skipGap behind = next := by rw [gap.skipGap_eq, solid.skipGap_eq]
  subst atLine atNext
  obtain ⟨shorter, same⟩ := lineEnd.reads
  exact ⟨_, by rw [joined?, same]; rfl⟩

theorem joined?_eq_none {c : Char} (notBlank : isBlank c = false) (notFeed : c ≠ '\n')
    (notReturn : c ≠ '\r') (rest : List Char) : joined? (c :: rest) = none := by
  have here : skipBlanks (c :: rest) = c :: rest :=
    List.dropWhile_cons_of_neg (by simp [notBlank])
  rw [joined?, Option.map_eq_none_iff, here, lineEnd?]
  · exact fun _ same => notFeed (List.cons.inj same).1
  · exact fun _ same => notReturn (List.cons.inj same).1

theorem Spelled.multilineBasic?_eq {text next : List Char} {c : Char}
    (spelled : Spelled text c next) (read : List Char) :
    multilineBasic? read text = multilineBasic? (c :: read) next := by
  cases spelled with
  | raw inside mark slash =>
    rw [multilineBasic?, inside, Bool.true_or, if_pos rfl]
    · exact mark
    · exact slash
    · rintro _ rfl
      cases inside
  | @letter letter c rest short =>
    obtain ⟨shorter, same⟩ := reads_escaped?_of_short next short
    have apart : joined? (letter :: next) = none := by
      unfold plainEscape? at short
      split at short
      all_goals cases short
      all_goals exact joined?_eq_none (by decide) (by decide) (by decide) next
    rw [multilineBasic?, apart, same]
  | @number kind c digits rest size hex number =>
    obtain ⟨shorter, same⟩ := reads_escaped?_of_number next size hex number
    have apart : joined? (kind :: (digits ++ next)) = none := by
      simp only [List.mem_cons, Prod.mk.injEq, List.not_mem_nil, or_false] at size
      rcases size with ⟨rfl, _⟩ | ⟨rfl, _⟩ | ⟨rfl, _⟩
      all_goals exact joined?_eq_none (by decide) (by decide) (by decide) _
    rw [multilineBasic?, apart, same]

theorem readsUnits_multilineBasic? : ReadsUnits '"' BasicUnit multilineBasic? where
  marks read text := by rw [multilineBasic?]
  lineFeed read text := by
    rw [multilineBasic?]
    · rfl
    · decide
    · decide
    · exact fun _ same => absurd same (by decide)
  both read text := by rw [multilineBasic?]
  unit := by
    intro text chars next unit read
    cases unit with
    | char spelled => exact spelled.multilineBasic?_eq read
    | joint blanks lineEnd gap solid =>
      obtain ⟨shorter, same⟩ := reads_joined? blanks lineEnd gap solid
      rw [multilineBasic?, same]
      rfl

theorem readsUnits_multilineLiteral? : ReadsUnits '\'' LiteralUnit multilineLiteral? where
  marks read text := by rw [multilineLiteral?]
  lineFeed read text := by
    rw [multilineLiteral?]
    · rfl
    · decide
    · exact fun _ same => absurd same (by decide)
  both read text := by rw [multilineLiteral?]
  unit := by
    intro text chars next unit read
    cases unit with
    | char inside mark =>
      rw [multilineLiteral?, inside, Bool.true_or, if_pos rfl]
      · rfl
      · exact mark
      · rintro _ rfl
        cases inside

/-! ### All four forms -/

theorem Opened.skipFirstLineEnd_eq {text rest : List Char} (opened : Opened text rest) :
    skipFirstLineEnd text = rest := by
  cases opened with
  | lineEnd first => cases first <;> rfl
  | none absent =>
    unfold skipFirstLineEnd
    split
    · exact absurd .lineFeed (absent _)
    · exact absurd .both (absent _)
    · rfl

theorem exists_of?_eq {α : Type} {text rest : List Char} {pair? : Option (α × List Char)}
    {shorter : ∀ found rest, pair? = some (found, rest) → rest.length < text.length} {found : α}
    (same : pair? = some (found, rest)) :
    ∃ shorterRest, Reading.of? pair? shorter = some ⟨found, rest, shorterRest⟩ := by
  subst same
  exact ⟨_, rfl⟩

theorem reads_of? {α β : Type} {text rest : List Char} {pair? : Option (α × List Char)}
    {shorter : ∀ found rest, pair? = some (found, rest) → rest.length < text.length} {found : α}
    (same : pair? = some (found, rest)) (f : α → β) :
    ∃ shorterRest, (Reading.of? pair? shorter).map (Reading.map f) =
      some ⟨f found, rest, shorterRest⟩ := by
  obtain ⟨shorterRest, read⟩ := @exists_of?_eq _ _ _ _ shorter _ same
  exact ⟨shorterRest, by rw [read]; rfl⟩

theorem Basic.reads {text chars rest : List Char} (inside : Basic text chars rest) :
    Reads basicString? text (.ofList chars) rest :=
  reads_of? (inside.basic?_eq []) String.ofList

theorem Literal.reads {text chars rest : List Char} (inside : Literal text chars rest) :
    Reads literalString? text (.ofList chars) rest :=
  reads_of? (inside.literal?_eq []) String.ofList

theorem reads_multilineBasicString? {text inner chars rest : List Char} (opened : Opened text inner)
    (inside : Multiline '"' BasicUnit inner chars rest) :
    Reads multilineBasicString? text (.ofList chars) rest := by
  have found := readsUnits_multilineBasic?.read_eq inside []
  rw [← opened.skipFirstLineEnd_eq] at found
  exact reads_of? found String.ofList

theorem reads_multilineLiteralString? {text inner chars rest : List Char}
    (opened : Opened text inner) (inside : Multiline '\'' LiteralUnit inner chars rest) :
    Reads multilineLiteralString? text (.ofList chars) rest := by
  have found := readsUnits_multilineLiteral?.read_eq inside []
  rw [← opened.skipFirstLineEnd_eq] at found
  exact reads_of? found String.ofList

theorem OneLine.reads {text rest : List Char} {value : String} (single : OneLine text value rest) :
    Reads singleLine? text value rest := by
  cases single with
  | basic inside => exact inside.reads.after
  | literal inside => exact inside.reads.after

/-- Without tripled marks a string is on one line. -/
theorem string?_eq {text : List Char} (basic : ∀ inner, text ≠ '"' :: '"' :: '"' :: inner)
    (literal : ∀ inner, text ≠ '\'' :: '\'' :: '\'' :: inner) :
    string? text = singleLine? text := by
  rw [string?]
  · exact basic
  · exact literal

theorem OneLine.string?_eq {text rest : List Char} {value : String}
    (single : OneLine text value rest) (basicEnds : rest.head? ≠ some '"')
    (literalEnds : rest.head? ≠ some '\'') : string? text = singleLine? text := by
  refine Toml.string?_eq ?_ ?_
  · rintro inner rfl
    cases single with
    | basic inside =>
      cases inside with
      | close => exact basicEnds rfl
      | char first _ => cases first with | raw _ mark _ => exact mark rfl
  · rintro inner rfl
    cases single with
    | literal inside =>
      cases inside with
      | close => exact literalEnds rfl
      | char _ mark _ => exact mark rfl

theorem Quoted.reads {text rest : List Char} {value : String} (quoted : Quoted text value rest)
    (basicEnds : rest.head? ≠ some '"') (literalEnds : rest.head? ≠ some '\'') :
    Reads string? text value rest := by
  cases quoted with
  | oneLine single =>
    obtain ⟨shorter, same⟩ := single.reads
    exact ⟨shorter, (single.string?_eq basicEnds literalEnds).trans same⟩
  | basic opened inside =>
    obtain ⟨shorter, same⟩ := reads_multilineBasicString? opened inside
    exact ⟨_, by rw [string?, same]; rfl⟩
  | literal opened inside =>
    obtain ⟨shorter, same⟩ := reads_multilineLiteralString? opened inside
    exact ⟨_, by rw [string?, same]; rfl⟩

end EnumNames.Toml
