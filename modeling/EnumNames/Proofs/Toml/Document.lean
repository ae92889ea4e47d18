import EnumNames.Proofs.Toml.Values

/-! Documents are read as the grammar has them: whatever the grammar says that stands under the keys
of a document within limits, a reader with these limits finds. -/
namespace EnumNames.Toml

variable {limits : Limits} {text rest : List Char}

/-! ### Statements -/

theorem reads_header? {most : Nat} {atPath behindPath brackets : List Char} {path : Path}
    (before : Blanks text atPath) (within : Within most atPath path behindPath)
    (after : Blanks behindPath (']' :: (brackets ++ rest))) :
    Reads (header? most (']' :: brackets)) text path rest := by
  have start : skipBlanks text = atPath :=
    before.skipBlanks_eq.trans within.dotted.opens.opens.skipBlanks_eq
  have closed : skipBlanks behindPath = (']' :: brackets) ++ rest := after.skipBlanks_eq
  have left : rest = (skipBlanks behindPath).drop (']' :: brackets).length := by
    rw [closed, List.drop_left]
  have fits : (']' :: brackets).isPrefixOf (skipBlanks behindPath) := by
    rw [closed, List.isPrefixOf_iff_prefix]
    exact List.prefix_append _ _
  obtain ⟨_, read⟩ := within.reads (by rw [closed]; rfl)
  subst start left
  exact ⟨_, by rw [header?, read]; exact if_pos fits⟩

theorem Stated.opens {statement : Statement} (stated : Stated limits text statement rest) :
    Opens text := by
  cases stated with
  | assign assigns => exact ((completes_value? _ _).assigns .oneLine).opens assigns
  | header => exact ⟨_, _, rfl, .inr (.inl rfl)⟩
  | row => exact ⟨_, _, rfl, .inr (.inl rfl)⟩

theorem Stated.reads {statement : Statement} (stated : Stated limits text statement rest)
    (stops : Stops rest) : Reads (statement? limits) text statement rest := by
  cases stated with
  | assign assigns =>
    have noBracket : ∀ inner, text ≠ '[' :: inner := by
      rintro inner rfl
      obtain ⟨within, _, _, _⟩ := assigns
      obtain ⟨c, others, same, word⟩ := within.dotted.opens
      obtain ⟨rfl, _⟩ := List.cons.inj same
      cases word
    obtain ⟨shorter, same⟩ := ((completes_value? _ _).assigns .oneLine).reads assigns stops
    refine ⟨shorter, ?_⟩
    rw [statement?, same]
    · rfl
    · exact fun inner => noBracket _
    · exact fun inner => noBracket _
  | @header text atPath behindPath _ path before within after =>
    have noRow : ∀ inner, text ≠ '[' :: inner := by
      rintro inner rfl
      obtain ⟨c, others, begins, word⟩ := within.dotted.opens
      cases before with
      | none =>
        obtain ⟨rfl, _⟩ := List.cons.inj begins
        cases word
      | blank first _ => cases first
    obtain ⟨_, same⟩ : Reads (header? limits.parents [']']) text path rest :=
      reads_header? before within after
    exact ⟨_, by
      rw [statement?, same]
      · rfl
      · exact noRow⟩
  | @row text atPath behindPath _ path before within after =>
    obtain ⟨_, same⟩ : Reads (header? limits.parents [']', ']']) text path rest :=
      reads_header? before within after
    exact ⟨_, by rw [statement?, same]; rfl⟩

/-! ### Lines -/

theorem statements?_of_skipSpace_eq_nil (nothing : skipSpace text = []) (read : List Statement) :
    statements? limits read text = some read.reverse := by
  rw [statements?, if_pos (by simp [nothing])]

theorem statements?_of_stated {start behind : List Char} {statement : Statement}
    (here : skipSpace text = start) (stated : Stated limits start statement behind)
    (tail : Tail behind rest) (read : List Statement) :
    statements? limits read text = statements? limits (statement :: read) rest := by
  obtain ⟨c, others, begins, _⟩ := stated.opens
  subst here
  obtain ⟨_, same⟩ := stated.reads tail.stops
  obtain ⟨_, finished⟩ := tail.finishLine?_eq
  rw [statements?, if_neg (by simp [begins]), same]
  simp only [finished]

/-- Lines are read as their statements, also when more space stands in front of them. -/
theorem Lines.statements?_eq {statements : List Statement} (lines : Lines limits text statements)
    {spaced : List Char} (same : skipSpace spaced = skipSpace text) (read : List Statement) :
    statements? limits read spaced = some (read.reverse ++ statements) := by
  induction lines generalizing spaced read with
  | last line =>
    cases line with
    | empty tail =>
      have nothing : skipSpace spaced = [] := by rw [same, tail.skipSpace_eq, skipSpace]
      rw [statements?_of_skipSpace_eq_nil nothing, List.append_nil]
    | statement indent stated tail =>
      have here := same.trans (indent.skipSpace_eq.trans stated.opens.skipSpace_eq)
      rw [statements?_of_stated here stated tail,
        statements?_of_skipSpace_eq_nil (by rw [skipSpace]), List.reverse_cons]
  | more line lineEnd _ ih =>
    cases line with
    | empty tail => exact ih (same.trans (tail.skipSpace_eq.trans lineEnd.skipSpace_eq)) read
    | statement indent stated tail =>
      have here := same.trans (indent.skipSpace_eq.trans stated.opens.skipSpace_eq)
      rw [statements?_of_stated here stated tail, ih lineEnd.skipSpace_eq, List.reverse_cons,
        List.append_assoc]

/-! ### Byte order marks -/

theorem SingleKey.head?_ne_mark {name : String} (key : SingleKey text name rest) :
    text.head? ≠ some '\ufeff' := by
  cases key with
  | bare nonempty inside _ =>
    obtain ⟨c, others, rfl⟩ := List.exists_cons_of_ne_nil nonempty
    rintro ⟨⟩
    cases inside
  | quoted single => cases single <;> exact nofun

theorem Stated.head?_ne_mark {statement : Statement} (stated : Stated limits text statement rest) :
    text.head? ≠ some '\ufeff' := by
  cases stated with
  | assign assigns =>
    obtain ⟨⟨dotted, _⟩, _, _, _⟩ := assigns
    cases dotted with
    | last key => exact key.head?_ne_mark
    | next key _ _ _ => exact key.head?_ne_mark
  | header => exact nofun
  | row => exact nofun

theorem Line.head?_ne_mark {statements : List Statement} (line : Line limits text statements rest) :
    text.head? ≠ some '\ufeff' := by
  cases line with
  | empty tail => exact fun mark => absurd (tail.stops.here _ mark) (by decide)
  | statement indent stated _ =>
    cases indent with
    | none => exact stated.head?_ne_mark
    | blank first _ =>
      rintro ⟨⟩
      cases first

/-- No line begins with a byte order mark. -/
theorem Lines.withoutMark_eq {statements : List Statement} (lines : Lines limits text statements) :
    withoutMark text = text := by
  have noMark : text.head? ≠ some '\ufeff' := by
    cases lines with
    | last line => exact line.head?_ne_mark
    | more line _ _ => exact line.head?_ne_mark
  unfold withoutMark
  split
  · exact absurd rfl noMark
  · rfl

/-! ### Documents -/

/-- A reader finds what stands under the keys of a document within its limits. -/
theorem Document.exists_document? {contents : List (String × Node)}
    (document : Document limits text contents) :
    ∃ assembly, document? limits text = some assembly ∧ assembly.contents = contents := by
  obtain ⟨marked, lines, run⟩ := document
  rename_i mark text statements assembly table
  have unmarked : withoutMark (mark ++ text) = text := by
    rcases marked with rfl | rfl
    · exact lines.withoutMark_eq
    · rfl
  refine ⟨assembly, ?_, rfl⟩
  simp only [document?, unmarked, lines.statements?_eq rfl [], List.reverse_nil, List.nil_append,
    Option.bind_eq_bind, Option.bind_some, run.foldlM_eq]
  rfl

/-- The grammar has a document in one way only. -/
theorem Document.unique {contents others : List (String × Node)}
    (document : Document limits text contents) (too : Document limits text others) :
    contents = others := by
  obtain ⟨assembly, read, rfl⟩ := document.exists_document?
  obtain ⟨other, again, rfl⟩ := too.exists_document?
  rw [Option.some_inj.mp (read.symm.trans again)]

/-- In a document no key comes twice. -/
theorem Document.nodup {contents : List (String × Node)} (document : Document limits text contents) :
    (contents.map Prod.fst).Nodup := by
  obtain ⟨assembly, read, rfl⟩ := document.exists_document?
  have distinct := (document?_distinct read).nodup_top
  rwa [Assembly.contents, List.map_map]

end EnumNames.Toml
