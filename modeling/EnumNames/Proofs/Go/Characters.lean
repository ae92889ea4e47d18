import EnumNames.Proofs.Go.Quoted

/-! The characters of written lines. A line is made of fixed words, of numbers, and of the names and
quoted texts that it is written from. So a character that neither the fixed words nor numbers are
made of is missing in a line exactly if it is missing in those names and quoted texts. For the end
of a line this says that a section breaks no line unless the name of its type does. -/
namespace EnumNames.Go

/-- A text without a character. -/
def Lacks (mark : Char) (text : String) : Prop := mark ∉ text.toList

/-- The characters that fixed words are made of: tabs, blanks and what is visible in ASCII. -/
def isPlain (c : Char) : Bool := c == '\t' || (' ' ≤ c && c ≤ '~')

def plainText (text : String) : Bool := text.toList.all isPlain

section Texts
variable {mark : Char}

@[simp] theorem lacks_append {left right : String} :
    Lacks mark (left ++ right) ↔ Lacks mark left ∧ Lacks mark right := by
  simp [Lacks]

theorem lacks_intercalate {separator : String} {parts : List String} (between : Lacks mark separator)
    (inside : ∀ part ∈ parts, Lacks mark part) : Lacks mark (separator.intercalate parts) := by
  induction parts with
  | nil => simp [Lacks]
  | cons part parts ih =>
    obtain ⟨first, others⟩ := List.forall_mem_cons.mp inside
    cases parts with
    | nil => simpa using first
    | cons next parts =>
      rw [String.intercalate_cons_cons, lacks_append, lacks_append]
      exact ⟨⟨first, between⟩, ih others⟩

theorem isPlain_of_mem_hex4 {n : Nat} {c : Char} (member : c ∈ hex4 n) : isPlain c := by
  have digit : ∀ d < 16, isPlain (Nat.digitChar d) = true := by decide
  obtain ⟨place, _, rfl⟩ := List.mem_map.mp member
  exact digit _ (Nat.mod_lt _ (by decide))

theorem isPlain_or_eq_of_mem_escape {c d : Char} (member : d ∈ escape c) :
    isPlain d = true ∨ d = c := by
  obtain ⟨letter, written, means, _⟩ | ⟨written, _⟩ | ⟨written, _⟩ := escape_cases c
  · simp only [written, List.mem_cons, List.not_mem_nil, or_false] at member
    left
    rcases member with rfl | rfl
    · rfl
    · unfold simpleEscape? at means
      split at means
      all_goals first | rfl | cases means
  · rw [written, List.mem_cons, List.mem_cons] at member
    left
    rcases member with rfl | rfl | digit
    · rfl
    · rfl
    · exact isPlain_of_mem_hex4 digit
  · rw [written, List.mem_singleton] at member
    exact .inr member

variable (hidden : isPlain mark = false)
include hidden

theorem lacks_of_plainText {text : String} (plain : plainText text) : Lacks mark text := by
  intro member
  rw [List.all_eq_true.mp plain mark member] at hidden
  cases hidden

theorem lacks_toString_nat (n : Nat) : Lacks mark (toString n) := by
  refine lacks_of_plainText hidden (List.all_eq_true.mpr ?_)
  intro c member
  have digit := isDigit_of_mem_toString member
  simp only [Char.isDigit, Bool.and_eq_true, decide_eq_true_eq] at digit
  have visible : ' ' ≤ c ∧ c ≤ '~' := by
    constructor
    · exact UInt32.le_trans (by decide) digit.1
    · exact UInt32.le_trans digit.2 (by decide)
  simp [isPlain, visible]

theorem lacks_toString_int (value : Int) : Lacks mark (toString value) := by
  obtain ⟨n, _, written⟩ | ⟨n, _, _, written⟩ := toString_int_cases value
  · rw [written]
    exact lacks_toString_nat hidden n
  · rw [written, lacks_append]
    exact ⟨lacks_of_plainText hidden (by decide), lacks_toString_nat hidden n⟩

/-- Escapes are plain, and what is not escaped stands for itself. -/
theorem mem_escape_iff {c : Char} : mark ∈ escape c ↔ mark = c ∧ isControl mark = false := by
  have differs {d : Char} (other : isPlain d = true ∨ isControl mark = false ∧ isControl d = true) :
      mark ≠ d := by
    rintro rfl
    simp_all
  constructor
  · intro member
    refine ⟨(isPlain_or_eq_of_mem_escape member).resolve_left ?_, isControl_of_mem_escape member⟩
    simp [hidden]
  · rintro ⟨rfl, visible⟩
    rw [escape, if_neg (differs (.inl rfl)), if_neg (differs (.inl rfl)),
      if_neg (differs (.inr ⟨visible, rfl⟩)), if_neg (differs (.inr ⟨visible, rfl⟩)),
      if_neg (differs (.inr ⟨visible, rfl⟩)), if_neg (by simp [visible])]
    exact List.mem_singleton_self mark

theorem mem_quoted_iff {text : String} :
    mark ∈ (quoted text).toList ↔ isControl mark = false ∧ mark ∈ text.toList := by
  have visible : mark ≠ '"' := by
    rintro rfl
    exact absurd hidden (by decide)
  simp only [toList_quoted, List.mem_cons, List.mem_append, List.mem_flatMap,
    mem_escape_iff hidden, visible, List.not_mem_nil, or_false, false_or]
  constructor
  · rintro ⟨c, member, rfl, control⟩
    exact ⟨control, member⟩
  · rintro ⟨control, member⟩
    exact ⟨mark, member, rfl, control⟩

theorem lacks_quoted_iff {text : String} :
    Lacks mark (quoted text) ↔ isControl mark = true ∨ Lacks mark text := by
  rw [Lacks, mem_quoted_iff hidden, not_and_or, Bool.not_eq_false]
  rfl

end Texts

/-! ### Lines -/

section Lines
variable (mark : Char)

def Expr.Lacks : Expr → Prop
  | .name identifier => Go.Lacks mark identifier
  | .int _ | .array _ _ => True
  | .string value => Go.Lacks mark (quoted value)
  | .verbatim characters => Go.Lacks mark characters
  | .wide _ left right | .tight _ left right => left.Lacks ∧ right.Lacks
  | .apply function argument | .applyWith function argument _ =>
    Go.Lacks mark function ∧ argument.Lacks
  | .index operand place => operand.Lacks ∧ place.Lacks
  | .slice operand start stop => operand.Lacks ∧ start.Lacks ∧ stop.Lacks

def Simple.Lacks : Simple → Prop
  | .decrease identifier _ => Go.Lacks mark identifier
  | .ret value => value.Lacks mark

def Arm.Lacks (arm : Arm) : Prop :=
  arm.condition.Lacks mark ∧ ∀ statement ∈ arm.body, statement.Lacks mark

def Stmt.Lacks : Stmt → Prop
  | .simple statement => statement.Lacks mark
  | .ifReturn condition value => condition.Lacks mark ∧ value.Lacks mark
  | .ifFound map key => Go.Lacks mark map ∧ Go.Lacks mark key
  | .switch arms otherwise => (∀ arm ∈ arms, arm.Lacks mark) ∧ otherwise.Lacks mark

def Item.Lacks : Item → Prop
  | .comments lines => ∀ line ∈ lines, Go.Lacks mark line
  | .packageClause name => Go.Lacks mark name
  | .importClause path => Go.Lacks mark (quoted path)
  | .const name value | .var name value => Go.Lacks mark name ∧ value.Lacks mark
  | .consts definitions | .vars definitions =>
    ∀ definition ∈ definitions, Go.Lacks mark definition.1 ∧ definition.2.Lacks mark
  | .mapVar name keyType entries =>
    (Go.Lacks mark name ∧ Go.Lacks mark keyType) ∧ ∀ entry ∈ entries, entry.2.Lacks mark
  | .stringMethod typeName body =>
    Go.Lacks mark typeName ∧ ∀ statement ∈ body, statement.Lacks mark
  | .guard constants => ∀ constant ∈ constants, Go.Lacks mark constant.1

variable {mark} (hidden : isPlain mark = false)
include hidden

theorem lacks_sign (operator : Operator) : Lacks mark operator.sign := by
  apply lacks_of_plainText hidden
  cases operator <;> decide

theorem lacks_indent {line : String} : Lacks mark (indent line) ↔ Lacks mark line := by
  simp +decide [indent, lacks_of_plainText hidden]

theorem Expr.lacks_text {expr : Expr} : Go.Lacks mark expr.text ↔ expr.Lacks mark := by
  have plain := @lacks_of_plainText mark hidden
  induction expr with
  | name | string => rfl
  | int value => simp only [text, Lacks, lacks_toString_int hidden value]
  | verbatim characters => simp +decide [text, Lacks, plain]
  | array bits elements =>
    have parts : Go.Lacks mark (", ".intercalate (elements.map toString)) :=
      lacks_intercalate (plain (by decide)) (by simpa using fun n _ => lacks_toString_nat hidden n)
    simp +decide only [text, Lacks, lacks_append, lacks_toString_nat hidden, parts, plain]
  | wide operator left right l r =>
    simp +decide [text, Lacks, lacks_sign hidden, l, r, plain]
  | tight operator left right l r => simp [text, Lacks, lacks_sign hidden, l, r]
  | apply function argument ih => simp +decide [text, Lacks, ih, plain]
  | applyWith function argument number ih =>
    simp +decide only [text, Lacks, lacks_append, lacks_toString_nat hidden, ih, plain, and_true]
  | index operand place l r => simp +decide [text, Lacks, l, r, plain]
  | slice operand start stop o l r => simp +decide [text, Lacks, o, l, r, plain, and_assoc]

theorem Simple.lacks_text {statement : Simple} :
    Go.Lacks mark statement.text ↔ statement.Lacks mark := by
  have plain := @lacks_of_plainText mark hidden
  cases statement with
  | decrease identifier amount =>
    simp +decide only [text, Lacks, lacks_append, lacks_toString_int hidden, plain, and_true]
  | ret value => simp +decide [text, Lacks, Expr.lacks_text hidden, plain]

theorem Arm.lacks_lines {arm : Arm} :
    (∀ line ∈ arm.lines, Go.Lacks mark line) ↔ arm.Lacks mark := by
  have plain := @lacks_of_plainText mark hidden
  simp +decide [lines, Lacks, lacks_indent hidden, Expr.lacks_text hidden,
    Simple.lacks_text hidden, plain]

theorem Stmt.lacks_lines {statement : Stmt} :
    (∀ line ∈ statement.lines, Go.Lacks mark line) ↔ statement.Lacks mark := by
  have plain := @lacks_of_plainText mark hidden
  cases statement with
  | simple statement => simp [lines, Lacks, Simple.lacks_text hidden]
  | ifReturn condition value =>
    simp +decide [lines, Lacks, lacks_indent hidden, Expr.lacks_text hidden, plain]
  | ifFound map key => simp +decide [lines, Lacks, lacks_indent hidden, plain]
  | switch arms otherwise =>
    simp +decide only [lines, Lacks, List.cons_append, List.forall_mem_cons,
      List.forall_mem_append, List.forall_mem_flatMap, lacks_append, lacks_indent hidden,
      Expr.lacks_text hidden, Arm.lacks_lines hidden, plain, true_and]
    simp

/-- Indented lines between a first line and one that closes them. -/
theorem lacks_block {α : Type} {first last : String} {parts : List α} (line : α → String)
    (closes : plainText last) :
    (∀ text ∈ first :: parts.map (fun part => indent (line part)) ++ [last], Lacks mark text) ↔
      Lacks mark first ∧ ∀ part ∈ parts, Lacks mark (line part) := by
  rw [List.cons_append, List.forall_mem_cons, List.forall_mem_append, List.forall_mem_map,
    List.forall_mem_singleton, and_iff_left (lacks_of_plainText hidden closes)]
  simp only [lacks_indent hidden]

theorem lacks_group {keyword : String} {definitions : List (String × Expr)}
    (own : plainText keyword) :
    (∀ line ∈ group keyword definitions, Lacks mark line) ↔
      ∀ definition ∈ definitions, Lacks mark definition.1 ∧ definition.2.Lacks mark := by
  have plain := @lacks_of_plainText mark hidden
  refine (lacks_block hidden (fun definition : String × Expr =>
    definition.1 ++ " = " ++ definition.2.text) (by decide)).trans ?_
  simp +decide [Expr.lacks_text hidden, plain, own]

theorem Item.lacks_lines {item : Item} :
    (∀ line ∈ item.lines, Go.Lacks mark line) ↔ item.Lacks mark := by
  have plain := @lacks_of_plainText mark hidden
  cases item with
  | comments lines => simp +decide [Item.lines, Lacks, plain]
  | packageClause | importClause => simp +decide [Item.lines, Lacks, plain]
  | const | var => simp +decide [Item.lines, Lacks, Expr.lacks_text hidden, plain]
  | consts | vars => exact lacks_group hidden (by decide)
  | mapVar name keyType entries =>
    refine (lacks_block hidden (fun entry : Int × Expr =>
      toString entry.1 ++ ": " ++ entry.2.text ++ ",") (by decide)).trans ?_
    simp +decide only [Lacks, lacks_append, lacks_toString_int hidden, Expr.lacks_text hidden,
      plain, and_true, true_and]
  | stringMethod typeName body =>
    refine (lacks_block hidden (fun line => line) (by decide)).trans ?_
    simp +decide only [Lacks, lacks_append, List.forall_mem_flatMap, Stmt.lacks_lines hidden,
      plain, and_true, true_and]
  | guard constants =>
    simp +decide only [Item.lines, Lacks, List.forall_mem_cons, List.forall_mem_append,
      List.forall_mem_map, List.not_mem_nil, IsEmpty.forall_iff, implies_true, lacks_append,
      lacks_indent hidden, lacks_toString_int hidden, plain, and_true, true_and]

theorem lacks_layout {items : List Item} :
    (∀ line ∈ layout items, Go.Lacks mark line) ↔ ∀ item ∈ items, item.Lacks mark := by
  have empty : Go.Lacks mark "" := lacks_of_plainText hidden (by decide)
  induction items with
  | nil => simp [layout]
  | cons item items ih =>
    cases items with
    | nil => rw [layout_singleton, List.forall_mem_singleton, Item.lacks_lines hidden]
    | cons next items =>
      rw [layout_cons_cons, List.forall_mem_append, List.forall_mem_cons, and_iff_right empty,
        Item.lacks_lines hidden, List.forall_mem_cons]
      exact and_congr_right' ih

end Lines

/-! ### Sections -/

section Sections
variable {mark : Char} {descriptor : Descriptor}

variable (hidden : isPlain mark = false) (own : Lacks mark descriptor.typeName)
include hidden

/-- A joined text is quoted name by name. -/
theorem lacks_quoted_joined_iff {records : List Record} :
    Lacks mark (quoted (Record.joined records)) ↔
      ∀ record ∈ records, Lacks mark (quoted record.name) := by
  have parts : Lacks mark (Record.joined records) ↔ ∀ record ∈ records, Lacks mark record.name := by
    simp [Lacks, Record.joined]
  simp only [lacks_quoted_iff hidden, parts]
  by_cases control : isControl mark = true
  · simp [control]
  · simp [control]

theorem lacks_numbered {name : String} (inside : Lacks mark name) (place : Nat) :
    Lacks mark (numbered name place) := by
  rw [numbered, lacks_append, lacks_append]
  exact ⟨⟨inside, lacks_of_plainText hidden (by decide)⟩, lacks_toString_nat hidden place⟩

theorem lacks_receiver : Lacks mark "i" := lacks_of_plainText hidden (by decide)

theorem receiver_lacks : receiver.Lacks mark := lacks_receiver hidden

theorem nameAtReceiver_lacks {blob offsets : String} (one : Lacks mark blob)
    (other : Lacks mark offsets) : (nameAtReceiver blob offsets).Lacks mark :=
  ⟨one, ⟨other, receiver_lacks hidden⟩, other, receiver_lacks hidden, trivial⟩

theorem shift_lacks (run : Run) :
    ∀ statement ∈ shift descriptor run, statement.Lacks mark := by
  unfold shift
  split
  · simp
  · rw [List.forall_mem_singleton]
    exact lacks_receiver hidden

theorem unshifted_lacks (run : Run) : (unshifted descriptor run).Lacks mark := by
  unfold unshifted
  split
  · exact receiver_lacks hidden
  · exact ⟨receiver_lacks hidden, trivial⟩

include own

theorem lacks_blobName : Lacks mark (blobName descriptor.typeName) := by
  simp +decide [blobName, own, @lacks_of_plainText mark hidden]

theorem lacks_offsetsName : Lacks mark (offsetsName descriptor.typeName) := by
  simp +decide [offsetsName, own, @lacks_of_plainText mark hidden]

theorem lacks_mapName : Lacks mark (mapName descriptor.typeName) := by
  simp +decide [mapName, own, @lacks_of_plainText mark hidden]

theorem fallback_lacks {value : Expr} (inside : value.Lacks mark) :
    (fallback descriptor value).Lacks mark := by
  have plain := @lacks_of_plainText mark hidden
  cases signedness : descriptor.signedness with
  | signed => simp +decide [fallback, signedness, Expr.Lacks, own, inside, plain]
  | unsigned => simp +decide [fallback, signedness, Expr.Lacks, own, inside, plain]

theorem arm_lacks (run : Run) (place : Nat) : (arm descriptor run place).Lacks mark := by
  have receives := receiver_lacks hidden
  have blob := lacks_numbered hidden (lacks_blobName hidden own) place
  have offsets := lacks_numbered hidden (lacks_offsetsName hidden own) place
  unfold arm
  split
  · refine ⟨⟨receives, trivial⟩, ?_⟩
    rw [List.forall_mem_singleton]
    exact blob
  · constructor
    · dsimp only
      split
      · exact ⟨receives, trivial⟩
      · exact ⟨⟨trivial, receives⟩, receives, trivial⟩
    · rw [List.forall_mem_append, List.forall_mem_singleton]
      exact ⟨shift_lacks hidden run, nameAtReceiver_lacks hidden blob offsets⟩

theorem outside_lacks : (outside descriptor).Lacks mark := by
  have receives := receiver_lacks hidden
  have length : Lacks mark "len" := lacks_of_plainText hidden (by decide)
  have beyond : (Expr.wide .atLeast receiver (memberCount descriptor.typeName
      (offsetsName descriptor.typeName))).Lacks mark :=
    ⟨receives, own, ⟨length, lacks_offsetsName hidden own⟩, trivial⟩
  unfold outside
  cases descriptor.signedness with
  | signed => exact ⟨⟨receives, trivial⟩, beyond⟩
  | unsigned => exact beyond

theorem oneRun_lacks_iff (run : Run) (table : NameTable) :
    (∀ item ∈ oneRun descriptor run table, item.Lacks mark) ↔
      Lacks mark (quoted table.blob) := by
  have blob := lacks_blobName hidden own
  have offsets := lacks_offsetsName hidden own
  rw [oneRun_eq]
  constructor
  · intro all
    exact (all _ List.mem_cons_self).2
  · intro names
    simp only [List.forall_mem_cons]
    refine ⟨⟨blob, names⟩, ⟨offsets, trivial⟩, ⟨own, ?_⟩, by simp⟩
    intro statement member
    rcases List.mem_append.mp member with shifted | rest
    · obtain ⟨inner, among, rfl⟩ := List.mem_map.mp shifted
      exact shift_lacks hidden run inner among
    · simp only [List.mem_cons, List.not_mem_nil, or_false] at rest
      rcases rest with rfl | rfl
      · exact ⟨outside_lacks hidden own, fallback_lacks hidden own (unshifted_lacks hidden run)⟩
      · exact nameAtReceiver_lacks hidden blob offsets

theorem multiRun_lacks_iff (tables : List NameTable) :
    (∀ item ∈ multiRun descriptor tables, item.Lacks mark) ↔
      ∀ table ∈ tables, Lacks mark (quoted table.blob) := by
  constructor
  · intro all table member
    obtain ⟨place, inside⟩ := @exists_mem_blobs descriptor.typeName tables table member
    have constants : (Item.consts (blobs descriptor.typeName tables 0)).Lacks mark :=
      all _ (by simp [multiRun_eq])
    exact (constants _ inside).2
  · intro names
    refine forall_mem_multiRun ?_ ?_ ⟨own, ?_⟩
    · intro definition member
      obtain ⟨⟨table, place⟩, among, rfl⟩ := List.mem_map.mp member
      exact ⟨lacks_numbered hidden (lacks_blobName hidden own) place,
        names table (List.fst_mem_of_mem_zipIdx among)⟩
    · intro definition member
      obtain ⟨table, place, rfl⟩ := mem_offsets member
      exact ⟨lacks_numbered hidden (lacks_offsetsName hidden own) place, trivial⟩
    · rw [List.forall_mem_singleton]
      refine ⟨?_, fallback_lacks hidden own (receiver_lacks hidden)⟩
      intro branch member
      obtain ⟨part, _, rfl⟩ := List.mem_map.mp member
      exact arm_lacks hidden own _ _

theorem sparseMap_lacks_iff (table : SpanTable) :
    (∀ item ∈ sparseMap descriptor table, item.Lacks mark) ↔
      Lacks mark (quoted table.blob) := by
  have blob := lacks_blobName hidden own
  have map := lacks_mapName hidden own
  rw [sparseMap_eq]
  constructor
  · intro all
    exact (all _ List.mem_cons_self).2
  · intro names
    simp only [List.forall_mem_cons]
    refine ⟨⟨blob, names⟩, ⟨⟨map, own⟩, ?_⟩, ⟨own, ?_⟩, by simp⟩
    · intro entry member
      obtain ⟨record, _, span, _, rfl⟩ := mem_entries member
      exact ⟨blob, trivial, trivial⟩
    · simp only [List.forall_mem_cons]
      exact ⟨⟨map, lacks_receiver hidden⟩, fallback_lacks hidden own (receiver_lacks hidden), by simp⟩

/-- In a section only the type's name and the names of its members decide which characters beyond
fixed words it is made of. -/
theorem Written.lacks_iff {items : List Item} (written : Written descriptor items) :
    (∀ item ∈ items, item.Lacks mark) ↔
      ∀ run ∈ descriptor.runs, ∀ record ∈ run.records, Lacks mark (quoted record.name) := by
  cases written with
  | oneRun runs built =>
    rw [oneRun_lacks_iff hidden own, (NameTable.build_eq_ok built).1,
      lacks_quoted_joined_iff hidden, runs, List.forall_mem_singleton]
  | @multiRun tables built =>
    rw [multiRun_lacks_iff hidden own]
    clear own
    generalize descriptor.runs = runs at built ⊢
    induction built with
    | nil => simp
    | cons first _ ih =>
      rw [List.forall_mem_cons, List.forall_mem_cons, (NameTable.build_eq_ok first).1,
        lacks_quoted_joined_iff hidden]
      exact and_congr_right' ih
  | sparseMap built =>
    have joined := (SpanTable.build_eq_ok built).1.blob
    dsimp only at joined
    rw [sparseMap_lacks_iff hidden own, joined, lacks_quoted_joined_iff hidden,
      List.forall_mem_flatMap]

theorem lacks_sectionLines_iff {typeName : String} {records : List Record}
    (compiled : Descriptor.Compiled typeName records descriptor) :
    (∀ line ∈ sectionLines descriptor, Lacks mark line) ↔
      ∀ run ∈ descriptor.runs, ∀ record ∈ run.records, Lacks mark (quoted record.name) := by
  obtain ⟨items, found, written⟩ := compiled.written
  rw [sectionLines, found, Option.getD_some, lacks_layout hidden, written.lacks_iff hidden own]

end Sections
end EnumNames.Go
