import EnumNames.Toml.Grammar.Text

/-! What means nothing in a document is skipped: of blanks, line ends, comments and what a line may
end with, the readers leave what the grammar leaves. -/
namespace EnumNames.Toml

/-- A run of characters is taken up to the first other one. -/
theorem takeWhile_dropWhile_append {p : Char → Bool} {front rest : List Char} (inside : front.all p)
    (ends : ∀ c ∈ rest.head?, p c = false) :
    (front ++ rest).takeWhile p = front ∧ (front ++ rest).dropWhile p = rest := by
  have all : ∀ c ∈ front, p c = true := by simpa using inside
  have stops : rest.takeWhile p = [] ∧ rest.dropWhile p = rest := by
    cases rest with
    | nil => exact ⟨rfl, rfl⟩
    | cons c rest =>
      have other : ¬p c = true := by simp [ends c rfl]
      exact ⟨List.takeWhile_cons_of_neg other, List.dropWhile_cons_of_neg other⟩
  rw [List.takeWhile_append_of_pos all, List.dropWhile_append_of_pos all, stops.1, stops.2,
    List.append_nil]
  exact ⟨rfl, rfl⟩

variable {text rest : List Char}

theorem Blanks.skipBlanks_eq (blanks : Blanks text rest) : skipBlanks text = skipBlanks rest := by
  induction blanks with
  | none => rfl
  | blank first _ ih => rwa [skipBlanks, List.dropWhile_cons_of_pos first]

/-- Neither blanks nor the characters of a line go beyond the end of a line. -/
theorem Ends.dropWhile_eq {p : Char → Bool} (ends : Ends text) (feed : p '\n' = false)
    (carriage : p '\r' = false) : text.dropWhile p = text := by
  cases ends with
  | text => rfl
  | line lineEnd =>
    cases lineEnd with
    | lineFeed => exact List.dropWhile_cons_of_neg (by simp [feed])
    | both => exact List.dropWhile_cons_of_neg (by simp [carriage])

theorem Ends.skipComment_eq (ends : Ends text) : skipComment text = text := by
  cases ends with
  | text => rfl
  | line lineEnd => cases lineEnd <;> rfl

theorem Ends.finished (ends : Ends text) : (text.isEmpty || (lineEnd? text).isSome) = true := by
  cases ends with
  | text => rfl
  | line lineEnd => cases lineEnd <;> rfl

theorem Tail.ends (tail : Tail text rest) : Ends rest := by
  induction tail with
  | none ends => exact ends
  | blank _ _ ih => exact ih
  | comment _ ends => exact ends

/-- Behind a line's last part only the line end is left. -/
theorem Tail.skip_eq (tail : Tail text rest) : skipComment (skipBlanks text) = rest := by
  induction tail with
  | none ends => rw [skipBlanks, ends.dropWhile_eq rfl rfl, ends.skipComment_eq]
  | blank first _ ih => rwa [skipBlanks, List.dropWhile_cons_of_pos first]
  | @comment chars rest inside ends =>
    have atMark : skipBlanks ('#' :: (chars ++ rest)) = '#' :: (chars ++ rest) := rfl
    rw [atMark, skipComment, List.dropWhile_append_of_pos (by simpa using inside),
      ends.dropWhile_eq rfl rfl]

theorem Tail.finishLine?_eq (tail : Tail text rest) :
    ∃ shorter, finishLine? text = some ⟨rest, shorter⟩ := by
  have finished := tail.ends.finished
  obtain rfl := tail.skip_eq
  exact ⟨_, if_pos finished⟩

theorem skipSpace_cons {c : Char} (other : c ≠ '\r') (rest : List Char) : skipSpace (c :: rest) =
    if isBlank c || c == '\n' then skipSpace rest
    else if c == '#' then skipSpace (rest.dropWhile isLineChar)
    else c :: rest := by
  rw [skipSpace]
  exact fun _ same => absurd same other

theorem ne_of_isBlank {c : Char} (blank : isBlank c) : c ≠ '\r' := by
  rintro rfl
  cases blank

theorem skipSpace_blank {c : Char} (blank : isBlank c) (rest : List Char) :
    skipSpace (c :: rest) = skipSpace rest := by
  rw [skipSpace_cons (ne_of_isBlank blank), blank, Bool.true_or, if_pos rfl]

theorem Blanks.skipSpace_eq (blanks : Blanks text rest) : skipSpace text = skipSpace rest := by
  induction blanks with
  | none => rfl
  | blank first _ ih => rw [skipSpace_blank first, ih]

theorem LineEnd.skipSpace_eq (lineEnd : LineEnd text rest) : skipSpace text = skipSpace rest := by
  cases lineEnd with
  | lineFeed => rw [skipSpace_cons (by decide)]; rfl
  | both => rw [skipSpace]

/-- The last part of a line is skipped like any other space. -/
theorem Tail.skipSpace_eq (tail : Tail text rest) : skipSpace text = skipSpace rest := by
  induction tail with
  | none => rfl
  | blank first _ ih => rw [skipSpace_blank first, ih]
  | @comment chars rest inside ends =>
    rw [skipSpace_cons (by decide)]
    change skipSpace ((chars ++ rest).dropWhile isLineChar) = _
    rw [List.dropWhile_append_of_pos (by simpa using inside), ends.dropWhile_eq rfl rfl]

theorem Space.skipSpace_eq (space : Space text rest) : skipSpace text = skipSpace rest := by
  induction space with
  | none => rfl
  | blank first _ ih => rw [skipSpace_blank first, ih]
  | line lineEnd _ ih => rw [lineEnd.skipSpace_eq, ih]
  | comment inside lineEnd _ ih =>
    rw [(Tail.comment inside (.line lineEnd)).skipSpace_eq, lineEnd.skipSpace_eq, ih]

end EnumNames.Toml
