import EnumNames.Proofs.Canonical
import EnumNames.Proofs.Go.Layout
import EnumNames.Proofs.Go.Characters

/-! Files lose nothing. Line by line, the text of a section gives back the type's name, the
signedness, and the values and names of all members, which determine the descriptor. -/
namespace EnumNames.Go

/-- An array gives back its elements. -/
theorem array_inj {leftBits rightBits : Nat} {left right : List Nat}
    (same : (Expr.array leftBits left).text = (Expr.array rightBits right).text) : left = right := by
  simp only [Expr.text, String.append_assoc, String.append_right_inj] at same
  have cut := toString_nat_append_inj (stopsNumeral_append (by decide) (by decide))
    (stopsNumeral_append (by decide) (by decide)) same
  simp only [String.append_right_inj, String.append_left_inj] at cut
  exact intercalate_inj cut.2

/-- The three forms of a condition. -/
theorem condition_cases (descriptor : Descriptor) (run : Run) (place : Nat) :
    (run.others.isEmpty = true ∧ (arm descriptor run place).condition.text =
        "i == " ++ toString (descriptor.signedness.read run.min)) ∨
      (run.others.isEmpty = false ∧ run.min = 0 ∧ (arm descriptor run place).condition.text =
        "i <= " ++ toString (descriptor.signedness.read run.max)) ∨
      (run.others.isEmpty = false ∧ (arm descriptor run place).condition.text =
        toString (descriptor.signedness.read run.min) ++
          (" <= i && i <= " ++ toString (descriptor.signedness.read run.max))) := by
  unfold arm
  split
  · rename_i single
    exact .inl ⟨single, rfl⟩
  · rename_i several
    rw [Bool.not_eq_true] at several
    dsimp only
    split
    · rename_i zero
      exact .inr (.inl ⟨several, zero.1, rfl⟩)
    · refine .inr (.inr ⟨several, ?_⟩)
      simp only [Expr.text, receiver, Operator.sign, String.append_assoc, String.append_right_inj]
      rw [← String.toList_inj]
      simp

/-- A condition tells a run of one member from others and gives the first value. -/
theorem condition_inj {left right : Descriptor} {leftRun rightRun : Run} {leftPlace rightPlace : Nat}
    (signedness : left.signedness = right.signedness)
    (same : (arm left leftRun leftPlace).condition.text =
      (arm right rightRun rightPlace).condition.text) :
    leftRun.others.isEmpty = rightRun.others.isEmpty ∧ leftRun.min = rightRun.min := by
  have equalOrLess (a b : String) : "i == " ++ a ≠ "i <= " ++ b := by
    intro same
    simpa using congrArg String.toList same
  have named {a b : String} (start : a.toList.head? = some 'i') :
      (a ++ b).toList.head? = some 'i' := by simp [start]
  rcases condition_cases left leftRun leftPlace with ⟨l, written⟩ | ⟨l, zero, written⟩ | ⟨l, written⟩ <;>
    rcases condition_cases right rightRun rightPlace with ⟨r, other⟩ | ⟨r, zero', other⟩ | ⟨r, other⟩ <;>
    rw [written, other, signedness] at same
  · have numbers := toString_int_injective ((String.append_right_inj _).mp same)
    exact ⟨l.trans r.symm, Signedness.read_inj.mp numbers⟩
  · exact absurd same (equalOrLess _ _)
  · exact absurd same.symm (toString_append_ne (named rfl))
  · exact absurd same.symm (equalOrLess _ _)
  · exact ⟨l.trans r.symm, zero.trans zero'.symm⟩
  · exact absurd same.symm (toString_append_ne (named rfl))
  · exact absurd same (toString_append_ne (named rfl))
  · exact absurd same (toString_append_ne (named rfl))
  · have cut := toString_append_inj (stopsNumeral_append (by decide) (by decide))
      (stopsNumeral_append (by decide) (by decide)) same
    exact ⟨l.trans r.symm, Signedness.read_inj.mp cut.1⟩

/-- A line two levels inside. -/
def Inner (line : String) : Prop := ∃ rest, line = indent (indent rest)

theorem not_inner_of_mem_head (descriptor : Descriptor) (runs : List Run) (place : Nat) :
    ∀ line ∈ (armLines descriptor runs place).head?, ¬Inner line := by
  cases runs with
  | nil => simp [armLines]
  | cons run runs =>
    rintro line member ⟨rest, same⟩
    rw [armLines_cons, List.head?_cons, Option.mem_some_iff] at member
    subst member
    simpa [indent] using congrArg String.toList same

theorem armLines_inj {left right : Descriptor} {leftRun rightRun : Run} {leftRuns rightRuns : List Run}
    {place : Nat} (same : armLines left (leftRun :: leftRuns) place =
      armLines right (rightRun :: rightRuns) place) :
    (arm left leftRun place).condition.text = (arm right rightRun place).condition.text ∧
      armLines left leftRuns (place + 1) = armLines right rightRuns (place + 1) := by
  rw [armLines_cons, armLines_cons, List.cons.injEq] at same
  obtain ⟨conditions, rests⟩ := same
  have inner (descriptor : Descriptor) (run : Run) :
      ∀ line ∈ (arm descriptor run place).body.map (indent <| indent ·.text), Inner line := by
    intro line member
    obtain ⟨statement, _, rfl⟩ := List.mem_map.mp member
    exact ⟨_, rfl⟩
  have cut := append_inj_of_forall (inner left leftRun) (inner right rightRun)
    (not_inner_of_mem_head _ _ _) (not_inner_of_mem_head _ _ _) rests
  simp only [indent, String.append_right_inj, String.append_left_inj] at conditions
  exact ⟨conditions, cut.2⟩

/-- What is written for several runs gives them back. -/
theorem runs_inj {left right : Descriptor} {leftRuns rightRuns : List Run}
    {leftTables rightTables : List NameTable} (place : Nat)
    (types : left.typeName = right.typeName) (signedness : left.signedness = right.signedness)
    (builtLeft : List.Forall₂ (fun run table => NameTable.build run.records = .ok table)
      leftRuns leftTables)
    (builtRight : List.Forall₂ (fun run table => NameTable.build run.records = .ok table)
      rightRuns rightTables)
    (consecutiveLeft : ∀ run ∈ leftRuns, run.Consecutive left.signedness)
    (consecutiveRight : ∀ run ∈ rightRuns, run.Consecutive right.signedness)
    (names : (blobs left.typeName leftTables place).map definitionLine =
      (blobs right.typeName rightTables place).map definitionLine)
    (places : (offsets left.typeName leftRuns leftTables place).map definitionLine =
      (offsets right.typeName rightRuns rightTables place).map definitionLine)
    (branches : armLines left leftRuns place = armLines right rightRuns place) :
    leftRuns = rightRuns := by
  induction builtLeft generalizing rightRuns rightTables place with
  | nil =>
    cases builtRight with
    | nil => rfl
    | cons => simp [blobs] at names
  | @cons run table runs tables built _ ih =>
    cases builtRight with
    | nil => simp [blobs] at names
    | @cons other otherTable others otherTables builtOther rest =>
      obtain ⟨conditions, branches⟩ := armLines_inj branches
      obtain ⟨single, first⟩ := condition_inj signedness conditions
      simp only [blobs, List.zipIdx_cons, List.map_cons, List.cons.injEq] at names
      obtain ⟨blob, names⟩ := names
      simp only [definitionLine, types, indent, Expr.text, String.append_right_inj] at blob
      have joined := quoted_injective blob
      have leftCounts := consecutiveLeft run List.mem_cons_self
      have rightCounts := consecutiveRight other List.mem_cons_self
      rw [← signedness] at rightCounts
      obtain ⟨leftBlob, _, leftOffsets⟩ := NameTable.build_eq_ok built
      obtain ⟨rightBlob, _, rightOffsets⟩ := NameTable.build_eq_ok builtOther
      rw [leftBlob, rightBlob] at joined
      simp only [offsets, List.zip_cons_cons, List.zipIdx_cons, List.filterMap_cons, ← single]
        at places
      have same : run.records.map Record.name = other.records.map Record.name ∧
          (offsets left.typeName runs tables (place + 1)).map definitionLine =
            (offsets right.typeName others otherTables (place + 1)).map definitionLine := by
        cases alone : run.others.isEmpty with
        | true =>
          simp only [alone, if_true] at places
          refine ⟨?_, places⟩
          rw [alone] at single
          simpa [Run.records, Record.joined, List.isEmpty_iff.mp alone,
            List.isEmpty_iff.mp single.symm] using joined
        | false =>
          simp only [alone, Bool.false_eq_true, if_false, List.map_cons, List.cons.injEq] at places
          refine ⟨?_, places.2⟩
          have array := places.1
          simp only [definitionLine, types, indent, String.append_right_inj] at array
          have boundaries := array_inj array
          rw [leftOffsets, rightOffsets] at boundaries
          exact NameTable.names_inj joined boundaries
      rw [Run.eq_of_names leftCounts rightCounts first same.1,
        ih (place + 1) rest (fun run member => consecutiveLeft run (List.mem_cons_of_mem _ member))
          (fun run member => consecutiveRight run (List.mem_cons_of_mem _ member)) names same.2
          branches]

theorem slice_inj {name : String} {leftStart leftStop rightStart rightStop : Int}
    (same : (Expr.slice (.name name) (.int leftStart) (.int leftStop)).text =
      (Expr.slice (.name name) (.int rightStart) (.int rightStop)).text) :
    leftStart = rightStart ∧ leftStop = rightStop := by
  simp only [Expr.text, String.append_assoc, String.append_right_inj] at same
  obtain ⟨starts, same⟩ := toString_append_inj (stopsNumeral_append (by decide) (by decide))
    (stopsNumeral_append (by decide) (by decide)) same
  rw [String.append_right_inj] at same
  exact ⟨starts, (toString_append_inj (by decide) (by decide) same).1⟩

/-- The entries of a map and the text that they point into give the members back. -/
theorem members_inj {left right : Descriptor} {leftTable rightTable : SpanTable}
    {leftMembers rightMembers : List Record} (types : left.typeName = right.typeName)
    (signedness : left.signedness = right.signedness) (blob : leftTable.blob = rightTable.blob)
    (foundLeft : ∀ record ∈ leftMembers, record.signedness = left.signedness ∧
      ∃ span, leftTable.span? record.value = some span ∧
        Text.between? leftTable.blob span.start.toNat span.stop.toNat = some record.name)
    (foundRight : ∀ record ∈ rightMembers, record.signedness = right.signedness ∧
      ∃ span, rightTable.span? record.value = some span ∧
        Text.between? rightTable.blob span.start.toNat span.stop.toNat = some record.name)
    (same : (entries left leftMembers leftTable).map entryLine =
      (entries right rightMembers rightTable).map entryLine) : leftMembers = rightMembers := by
  induction leftMembers generalizing rightMembers with
  | nil =>
    cases rightMembers with
    | nil => rfl
    | cons record members =>
      obtain ⟨_, span, found, _⟩ := foundRight record List.mem_cons_self
      rw [entries_cons members found] at same
      cases same
  | cons record members ih =>
    obtain ⟨kind, span, found, name⟩ := foundLeft record List.mem_cons_self
    rw [entries_cons members found] at same
    cases rightMembers with
    | nil => cases same
    | cons other others =>
      obtain ⟨otherKind, otherSpan, otherFound, otherName⟩ := foundRight other List.mem_cons_self
      rw [entries_cons others otherFound, List.map_cons, List.map_cons, List.cons.injEq] at same
      obtain ⟨line, same⟩ := same
      simp only [entryLine, indent, signedness, types, String.append_assoc,
        String.append_right_inj] at line
      obtain ⟨keys, line⟩ := toString_append_inj (stopsNumeral_append (by decide) (by decide))
        (stopsNumeral_append (by decide) (by decide)) line
      simp only [String.append_right_inj, String.append_left_inj] at line
      obtain ⟨starts, stops⟩ := slice_inj line
      rw [blob, Int.ofNat_inj.mp starts, Int.ofNat_inj.mp stops, otherName, Option.some.injEq] at name
      have value := Signedness.read_inj.mp keys
      have kinds := kind.trans (signedness.trans otherKind.symm)
      rw [ih (fun record member => foundLeft record (List.mem_cons_of_mem _ member))
        (fun record member => foundRight record (List.mem_cons_of_mem _ member)) same]
      cases record
      cases other
      simp_all

theorem header_inj {left right : String} (same : "func (i " ++ left ++ ") String() string \x7b" =
    "func (i " ++ right ++ ") String() string \x7b") : left = right := by
  simpa using same

/-- The form of a value without a name tells the signedness. -/
theorem fallback_inj {left right : Descriptor} {leftValue rightValue : Expr}
    (types : left.typeName = right.typeName)
    (same : (fallback left leftValue).text = (fallback right rightValue).text) :
    left.signedness = right.signedness := by
  have characters := congrArg String.toList same
  cases l : left.signedness <;> cases r : right.signedness <;>
    simp [fallback, l, r, types, Expr.text] at characters ⊢

/-- Whether the receiver is shifted, and by what, is told by the line in front of the test. -/
theorem shift_inj {left right : Descriptor} {leftRun rightRun : Run}
    {leftCondition rightCondition : String} {leftRest rightRest : List String}
    (same : (shift left leftRun).map (indent ·.text) ++ indent ("if " ++ leftCondition) :: leftRest =
      (shift right rightRun).map (indent ·.text) ++ indent ("if " ++ rightCondition) :: rightRest) :
    leftRest = rightRest ∧
      (left.signedness = right.signedness → leftRun.min = rightRun.min) := by
  have differ (value : Int) (condition : String) :
      indent (Simple.decrease "i" value).text ≠ indent ("if " ++ condition) := by
    intro same
    simpa [indent, Simple.text] using congrArg String.toList same
  unfold shift at same
  split at same <;> rename_i leftZero <;> split at same <;> rename_i rightZero
  · exact ⟨(List.cons.inj same).2, fun _ => leftZero.trans rightZero.symm⟩
  · exact absurd (List.cons.inj same).1.symm (differ _ _)
  · exact absurd (List.cons.inj same).1 (differ _ _)
  · simp only [List.map_cons, List.map_nil, List.cons_append, List.nil_append, List.cons.injEq]
      at same
    refine ⟨same.2.2, ?_⟩
    intro signedness
    have amounts := same.1
    simp only [indent, Simple.text, String.append_right_inj, signedness] at amounts
    exact Signedness.read_inj.mp (toString_int_injective amounts)

/-- What is written for one run gives it back. -/
theorem run_inj {left right : Descriptor} {leftRun rightRun : Run} {leftTable rightTable : NameTable}
    {leftRest rightRest : List String}
    (builtLeft : NameTable.build leftRun.records = .ok leftTable)
    (builtRight : NameTable.build rightRun.records = .ok rightTable)
    (consecutiveLeft : leftRun.Consecutive left.signedness)
    (consecutiveRight : rightRun.Consecutive right.signedness)
    (same : layout (oneRun left leftRun leftTable) ++ leftRest =
      layout (oneRun right rightRun rightTable) ++ rightRest) :
    left.typeName = right.typeName ∧ left.signedness = right.signedness ∧ leftRun = rightRun ∧
      leftRest = rightRest := by
  obtain ⟨leftCondition, leftValue, leftLines⟩ := layout_oneRun left leftRun leftTable
  obtain ⟨rightCondition, rightValue, rightLines⟩ := layout_oneRun right rightRun rightTable
  rw [leftLines, rightLines] at same
  simp only [List.cons_append, List.append_assoc, List.cons.injEq, true_and] at same
  obtain ⟨names, places, header, body⟩ := same
  have types := header_inj header
  simp only [types, String.append_right_inj] at names places
  rw [String.append_assoc, String.append_assoc] at body
  obtain ⟨rests, first⟩ := shift_inj body
  simp only [List.nil_append, List.cons.injEq, true_and] at rests
  obtain ⟨otherwise, _, rests⟩ := rests
  simp only [indent, String.append_right_inj] at otherwise
  have signedness := fallback_inj types otherwise
  obtain ⟨leftBlob, _, leftOffsets⟩ := NameTable.build_eq_ok builtLeft
  obtain ⟨rightBlob, _, rightOffsets⟩ := NameTable.build_eq_ok builtRight
  have joined := quoted_injective names
  have boundaries := array_inj places
  rw [leftBlob, rightBlob] at joined
  rw [leftOffsets, rightOffsets] at boundaries
  rw [← signedness] at consecutiveRight
  exact ⟨types, signedness, Run.eq_of_names consecutiveLeft consecutiveRight (first signedness)
    (NameTable.names_inj joined boundaries), rests⟩

/-- A line one level inside. -/
def Inside (line : String) : Prop := ∃ rest, line = indent rest

theorem inside_of_mem_definitions {definitions : List (String × Expr)} :
    ∀ line ∈ definitions.map definitionLine, Inside line := by
  intro line member
  obtain ⟨definition, _, rfl⟩ := List.mem_map.mp member
  exact ⟨_, rfl⟩

/-- A group gives back the lines of its definitions, and what follows it. -/
theorem group_inj {keyword : String} {left right : List (String × Expr)} {leftRest rightRest : List String}
    (same : group keyword left ++ leftRest = group keyword right ++ rightRest) :
    left.map definitionLine = right.map definitionLine ∧ leftRest = rightRest := by
  have ends (rest : List String) : ∀ line ∈ (")" :: rest).head?, ¬Inside line := by
    rintro line closing ⟨rest, same⟩
    rw [List.head?_cons, Option.mem_some_iff] at closing
    subst closing
    simpa [indent] using congrArg String.toList same
  simp only [group_eq, List.cons_append, List.append_assoc, List.nil_append, List.cons.injEq,
    true_and] at same
  have cut := append_inj_of_forall inside_of_mem_definitions inside_of_mem_definitions
    (ends _) (ends _) same
  exact ⟨cut.1, (List.cons.inj cut.2).2⟩

theorem isNotDefault_of_mem_armLines {descriptor : Descriptor} {runs : List Run} {place : Nat} :
    ∀ line ∈ armLines descriptor runs place, line ≠ indent "default:" := by
  rintro line member same
  subst same
  simp only [armLines, List.mem_flatMap, List.mem_map, Arm.lines, List.mem_cons] at member
  obtain ⟨⟨run, place⟩, _, line, opening | ⟨statement, _, rfl⟩, same⟩ := member
  · subst opening
    simpa [indent] using congrArg String.toList same
  · simpa [indent] using congrArg String.toList same

/-- The variables in front of the method, if there are any, are told from the method itself. -/
theorem variables_inj {left right : List (String × Expr)} {leftType rightType : String}
    {leftRest rightRest : List String}
    (same : (if left.isEmpty then [] else group "var" left ++ [""]) ++
        ("func (i " ++ leftType ++ ") String() string \x7b") :: leftRest =
      (if right.isEmpty then [] else group "var" right ++ [""]) ++
        ("func (i " ++ rightType ++ ") String() string \x7b") :: rightRest) :
    left.map definitionLine = right.map definitionLine ∧ leftType = rightType ∧
      leftRest = rightRest := by
  have differ (typeName : String) : "func (i " ++ typeName ++ ") String() string \x7b" ≠ "var" ++ " (" := by
    intro same
    simpa using congrArg String.toList same
  split at same <;> rename_i l <;> split at same <;> rename_i r
  · rw [List.isEmpty_iff.mp l, List.isEmpty_iff.mp r]
    exact ⟨rfl, header_inj (List.cons.inj same).1, (List.cons.inj same).2⟩
  · exact absurd (List.cons.inj same).1 (differ _)
  · exact absurd (List.cons.inj same).1.symm (differ _)
  · rw [List.append_assoc, List.append_assoc] at same
    obtain ⟨definitions, same⟩ := group_inj same
    simp only [List.cons_append, List.nil_append, List.cons.injEq, true_and] at same
    exact ⟨definitions, header_inj same.1, same.2⟩

/-- What is written for several runs gives them back. -/
theorem multiRun_inj {left right : Descriptor} {leftTables rightTables : List NameTable}
    {leftRest rightRest : List String}
    (builtLeft : List.Forall₂ (fun run table => NameTable.build run.records = .ok table)
      left.runs leftTables)
    (builtRight : List.Forall₂ (fun run table => NameTable.build run.records = .ok table)
      right.runs rightTables)
    (consecutiveLeft : ∀ run ∈ left.runs, run.Consecutive left.signedness)
    (consecutiveRight : ∀ run ∈ right.runs, run.Consecutive right.signedness)
    (same : layout (multiRun left leftTables) ++ leftRest =
      layout (multiRun right rightTables) ++ rightRest) :
    left.typeName = right.typeName ∧ left.signedness = right.signedness ∧
      left.runs = right.runs ∧ leftRest = rightRest := by
  rw [layout_multiRun, layout_multiRun, List.append_assoc, List.append_assoc] at same
  obtain ⟨names, same⟩ := group_inj same
  simp only [List.cons_append, List.append_assoc, List.cons.injEq, true_and] at same
  obtain ⟨places, types, body⟩ := variables_inj same
  rw [List.cons.injEq] at body
  obtain ⟨branches, rest⟩ := append_inj_of_forall isNotDefault_of_mem_armLines
    isNotDefault_of_mem_armLines (by simp) (by simp) body.2
  simp only [List.nil_append, List.cons.injEq, true_and] at rest
  obtain ⟨otherwise, rest⟩ := rest
  simp only [indent, String.append_right_inj] at otherwise
  have signedness := fallback_inj types otherwise
  exact ⟨types, signedness, runs_inj 0 types signedness builtLeft builtRight consecutiveLeft
    consecutiveRight names places branches, rest⟩

/-- What is written for many runs gives their members back. -/
theorem sparseMap_inj {left right : Descriptor} {leftTable rightTable : SpanTable}
    {leftRest rightRest : List String} (builtLeft : SpanTable.build left.runs = .ok leftTable)
    (builtRight : SpanTable.build right.runs = .ok rightTable)
    (consecutiveLeft : ∀ run ∈ left.runs, run.Consecutive left.signedness)
    (consecutiveRight : ∀ run ∈ right.runs, run.Consecutive right.signedness)
    (distinctLeft : ((left.runs.flatMap Run.records).map Record.value).Nodup)
    (distinctRight : ((right.runs.flatMap Run.records).map Record.value).Nodup)
    (same : layout (sparseMap left leftTable) ++ leftRest =
      layout (sparseMap right rightTable) ++ rightRest) :
    left.typeName = right.typeName ∧ left.signedness = right.signedness ∧
      left.runs.flatMap Run.records = right.runs.flatMap Run.records ∧ leftRest = rightRest := by
  have ends (rest : List String) : ∀ line ∈ ("\x7d" :: rest).head?, ¬Inside line := by
    rintro line closing ⟨rest, same⟩
    rw [List.head?_cons, Option.mem_some_iff] at closing
    subst closing
    simpa [indent] using congrArg String.toList same
  have inside {entries : List (Int × Expr)} : ∀ line ∈ entries.map entryLine, Inside line := by
    intro line member
    obtain ⟨entry, _, rfl⟩ := List.mem_map.mp member
    exact ⟨_, rfl⟩
  have found {descriptor : Descriptor} {table : SpanTable}
      (built : SpanTable.build descriptor.runs = .ok table)
      (consecutive : ∀ run ∈ descriptor.runs, run.Consecutive descriptor.signedness)
      (distinct : ((descriptor.runs.flatMap Run.records).map Record.value).Nodup) :
      ∀ record ∈ descriptor.runs.flatMap Run.records, record.signedness = descriptor.signedness ∧
        ∃ span, table.span? record.value = some span ∧
          Text.between? table.blob span.start.toNat span.stop.toNat = some record.name := by
    intro record member
    obtain ⟨run, runMember, inside⟩ := List.mem_flatMap.mp member
    exact ⟨(consecutive run runMember).uniform record inside,
      SpanTable.span?_of_mem built distinct member⟩
  rw [layout_sparseMap, layout_sparseMap] at same
  simp only [List.cons_append, List.append_assoc, List.cons.injEq, true_and] at same
  obtain ⟨names, _, body⟩ := same
  obtain ⟨lines, rest⟩ := append_inj_of_forall inside inside (ends _) (ends _) body
  simp only [List.nil_append, List.cons.injEq, true_and] at rest
  obtain ⟨header, _, otherwise, rest⟩ := rest
  have types := header_inj header
  simp only [indent, String.append_right_inj] at otherwise
  have signedness := fallback_inj types otherwise
  simp only [types, String.append_right_inj] at names
  exact ⟨types, signedness, members_inj types signedness (quoted_injective names)
    (found builtLeft consecutiveLeft distinctLeft) (found builtRight consecutiveRight distinctRight)
    lines, rest⟩

/-- A section gives its descriptor back, and what follows it. -/
theorem sectionLines_inj {leftType rightType : String} {leftRecords rightRecords : List Record}
    {left right : Descriptor} {leftRest rightRest : List String}
    (compiledLeft : Descriptor.Compiled leftType leftRecords left)
    (compiledRight : Descriptor.Compiled rightType rightRecords right)
    (same : sectionLines left ++ leftRest = sectionLines right ++ rightRest) :
    left = right ∧ leftRest = rightRest := by
  obtain ⟨leftItems, leftFound, leftWritten⟩ := compiledLeft.written
  obtain ⟨rightItems, rightFound, rightWritten⟩ := compiledRight.written
  have consecutiveLeft := compiledLeft.consecutive
  have consecutiveRight := compiledRight.consecutive
  have named : leftType = rightType ↔ left.typeName = right.typeName := by
    rw [compiledLeft.typeName_eq, compiledRight.typeName_eq]
  simp only [sectionLines, leftFound, rightFound, Option.getD_some] at same
  have shapes := congrArg shape same
  cases leftWritten with
  | oneRun leftRuns leftBuilt =>
    rw [leftRuns, List.forall_mem_singleton] at consecutiveLeft
    rw [shape_oneRun] at shapes
    cases rightWritten with
    | oneRun rightRuns rightBuilt =>
      rw [rightRuns, List.forall_mem_singleton] at consecutiveRight
      obtain ⟨types, signedness, run, rest⟩ :=
        run_inj leftBuilt rightBuilt consecutiveLeft consecutiveRight same
      exact ⟨compiledLeft.eq_of_members compiledRight (named.mpr types) signedness
        (by rw [leftRuns, rightRuns, run]), rest⟩
    | multiRun rightBuilt => simp [shape_multiRun] at shapes
    | sparseMap rightBuilt => simp [shape_sparseMap] at shapes
  | multiRun leftBuilt =>
    rw [shape_multiRun] at shapes
    cases rightWritten with
    | oneRun rightRuns rightBuilt => simp [shape_oneRun] at shapes
    | multiRun rightBuilt =>
      obtain ⟨types, signedness, runs, rest⟩ :=
        multiRun_inj leftBuilt rightBuilt consecutiveLeft consecutiveRight same
      exact ⟨compiledLeft.eq_of_members compiledRight (named.mpr types) signedness (by rw [runs]),
        rest⟩
    | sparseMap rightBuilt => simp [shape_sparseMap] at shapes
  | sparseMap leftBuilt =>
    rw [shape_sparseMap] at shapes
    cases rightWritten with
    | oneRun rightRuns rightBuilt => simp [shape_oneRun] at shapes
    | multiRun rightBuilt => simp [shape_multiRun] at shapes
    | sparseMap rightBuilt =>
      obtain ⟨types, signedness, members, rest⟩ := sparseMap_inj leftBuilt rightBuilt
        consecutiveLeft consecutiveRight compiledLeft.ascending.values_nodup
        compiledRight.ascending.values_nodup same
      exact ⟨compiledLeft.eq_of_members compiledRight (named.mpr types) signedness members, rest⟩

/-- The sections of several types give their descriptors back. -/
theorem sections_inj {left right : List Descriptor}
    (compiledLeft : ∀ descriptor ∈ left, ∃ typeName records,
      Descriptor.Compiled typeName records descriptor)
    (compiledRight : ∀ descriptor ∈ right, ∃ typeName records,
      Descriptor.Compiled typeName records descriptor)
    (same : (left.flatMap fun descriptor => "" :: sectionLines descriptor) =
      right.flatMap fun descriptor => "" :: sectionLines descriptor) : left = right := by
  induction left generalizing right with
  | nil =>
    cases right with
    | nil => rfl
    | cons descriptor right => simp at same
  | cons descriptor left ih =>
    cases right with
    | nil => simp at same
    | cons other right =>
      simp only [List.flatMap_cons, List.cons_append, List.cons.injEq, true_and] at same
      obtain ⟨_, _, compiled⟩ := compiledLeft descriptor List.mem_cons_self
      obtain ⟨_, _, otherCompiled⟩ := compiledRight other List.mem_cons_self
      obtain ⟨rfl, rest⟩ := sectionLines_inj compiled otherCompiled same
      rw [ih (fun descriptor member => compiledLeft descriptor (List.mem_cons_of_mem _ member))
        (fun descriptor member => compiledRight descriptor (List.mem_cons_of_mem _ member)) rest]

/-- A descriptor that is compiled for a type whose name stays on its line, as identifiers do. -/
def IsCompiled (descriptor : Descriptor) : Prop :=
  ∃ typeName records, (Descriptor.compile typeName records).outcome = .ok descriptor ∧
    IsLine typeName

theorem IsCompiled.compiled {descriptor : Descriptor} (compiled : IsCompiled descriptor) :
    ∃ typeName records, Descriptor.Compiled typeName records descriptor := by
  obtain ⟨typeName, records, compiled, _⟩ := compiled
  exact ⟨typeName, records, Descriptor.compile_eq_ok_iff.mp compiled⟩

theorem IsCompiled.isLine_of_mem {descriptor : Descriptor} (compiled : IsCompiled descriptor) :
    ∀ line ∈ sectionLines descriptor, IsLine line := by
  obtain ⟨typeName, records, compiled, single⟩ := compiled
  have compiled := Descriptor.compile_eq_ok_iff.mp compiled
  apply (lacks_sectionLines_iff rfl (compiled.typeName_eq ▸ single) compiled).mpr
  intro run _ record _
  exact newline_notMem_quoted record.name

theorem writeFile_compiled {heading : Heading} {descriptors : List Descriptor}
    (compiled : ∀ descriptor ∈ descriptors, IsCompiled descriptor) :
    writeFile heading descriptors .unbounded =
      .ok ⟨lineText (fileLines heading descriptors), none⟩ := by
  rw [writeFile_eq, writeLines_unbounded]
  intro descriptor member
  obtain ⟨_, _, compiled⟩ := (compiled descriptor member).compiled
  obtain ⟨items, found, _⟩ := compiled.written
  simp [found]

theorem lineText_fileLines_inj {heading : Heading} {left right : List Descriptor}
    (compiledLeft : ∀ descriptor ∈ left, IsCompiled descriptor)
    (compiledRight : ∀ descriptor ∈ right, IsCompiled descriptor)
    (same : lineText (fileLines heading left) = lineText (fileLines heading right)) :
    left = right := by
  have single {descriptors : List Descriptor}
      (compiled : ∀ descriptor ∈ descriptors, IsCompiled descriptor) :
      ∀ line ∈ descriptors.flatMap fun descriptor => "" :: sectionLines descriptor,
        IsLine line := by
    simp only [List.forall_mem_flatMap, List.forall_mem_cons]
    exact fun descriptor member => ⟨by decide, (compiled descriptor member).isLine_of_mem⟩
  rw [fileLines, fileLines, lineText_append, lineText_append, String.append_right_inj] at same
  exact sections_inj (fun descriptor member => (compiledLeft descriptor member).compiled)
    (fun descriptor member => (compiledRight descriptor member).compiled)
    (lineText_inj (single compiledLeft) (single compiledRight) same)

/-- Under one heading, a file loses nothing: its text determines the descriptors that it was
written for, in order and with all their parts, and one decoder finds them. -/
theorem writeFile_injective (heading : Heading) :
    (∀ {left right : List Descriptor}, (∀ descriptor ∈ left, IsCompiled descriptor) →
      (∀ descriptor ∈ right, IsCompiled descriptor) →
      writeFile heading left .unbounded = writeFile heading right .unbounded → left = right) ∧
    ∃ decode : String → List Descriptor, ∀ descriptors,
      (∀ descriptor ∈ descriptors, IsCompiled descriptor) → ∃ text,
        writeFile heading descriptors .unbounded = .ok ⟨text, none⟩ ∧ decode text = descriptors := by
  classical
  have injective {left right : List Descriptor}
      (compiledLeft : ∀ descriptor ∈ left, IsCompiled descriptor)
      (compiledRight : ∀ descriptor ∈ right, IsCompiled descriptor)
      (same : writeFile heading left .unbounded = writeFile heading right .unbounded) :
      left = right := by
    rw [writeFile_compiled compiledLeft, writeFile_compiled compiledRight, Except.ok.injEq,
      Sink.mk.injEq] at same
    exact lineText_fileLines_inj compiledLeft compiledRight same.1
  let isFor (text : String) (descriptors : List Descriptor) : Prop :=
    (∀ descriptor ∈ descriptors, IsCompiled descriptor) ∧
      writeFile heading descriptors .unbounded = .ok ⟨text, none⟩
  refine ⟨injective, fun text => if known : ∃ descriptors, isFor text descriptors then known.choose
    else [], fun descriptors compiled => ⟨_, writeFile_compiled compiled, ?_⟩⟩
  have known : ∃ others, isFor (lineText (fileLines heading descriptors)) others :=
    ⟨descriptors, compiled, writeFile_compiled compiled⟩
  refine (dif_pos known).trans ?_
  obtain ⟨chosen, written⟩ := known.choose_spec
  exact injective chosen compiled (written.trans (writeFile_compiled compiled).symm)

/-- Two types whose generated names begin alike, with a name that needs escapes. -/
theorem writeFile_injective_order : ∃ first second,
    (Descriptor.compile "Level" [⟨"a\"\n", 0, .signed⟩, ⟨"", 1, .signed⟩]).outcome = .ok first ∧
    (Descriptor.compile "Level_name" [⟨"a\"\n", 0, .unsigned⟩, ⟨"é", 2, .unsigned⟩]).outcome =
      .ok second ∧
    writeFile ⟨"levels", none⟩ [first, second] .unbounded ≠
      writeFile ⟨"levels", none⟩ [second, first] .unbounded := by
  obtain ⟨first, compiledFirst⟩ : ∃ first, (Descriptor.compile "Level"
      [⟨"a\"\n", 0, .signed⟩, ⟨"", 1, .signed⟩]).outcome = .ok first := ⟨_, by cbv⟩
  obtain ⟨second, compiledSecond⟩ : ∃ second, (Descriptor.compile "Level_name"
      [⟨"a\"\n", 0, .unsigned⟩, ⟨"é", 2, .unsigned⟩]).outcome = .ok second := ⟨_, by cbv⟩
  refine ⟨first, second, compiledFirst, compiledSecond, ?_⟩
  intro same
  have one : IsCompiled first := ⟨_, _, compiledFirst, by decide⟩
  have other : IsCompiled second := ⟨_, _, compiledSecond, by decide⟩
  have equal := (writeFile_injective ⟨"levels", none⟩).1 (by simp [one, other])
    (by simp [one, other]) same
  have types := congrArg Descriptor.typeName (List.cons.inj equal).1
  rw [(Descriptor.compile_eq_ok_iff.mp compiledFirst).typeName_eq,
    (Descriptor.compile_eq_ok_iff.mp compiledSecond).typeName_eq] at types
  exact absurd types (by decide)

end EnumNames.Go
