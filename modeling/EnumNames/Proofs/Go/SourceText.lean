import EnumNames.Policy.Descriptor
import EnumNames.Proofs.Go.Characters
import EnumNames.Proofs.Go.Guard
import EnumNames.Proofs.Go.SectionReading
import EnumNames.Proofs.Go.Writing

/-! Which files are source text of Go. Two characters are refused wherever they stand, even inside a
string literal: NUL, and a byte order mark behind the beginning of the text. Quoting escapes the
first one with all control characters, but a byte order mark is none and stands for itself. So a
file is lexically valid exactly if no name and no command holds one. -/
namespace EnumNames

theorem Text.mem_trim_iff {c : Char} {text : String} (visible : isBlank c = false) :
    c ∈ (trim text).toList ↔ c ∈ text.toList := by
  have kept (characters : List Char) : c ∈ characters.dropWhile isBlank ↔ c ∈ characters := by
    constructor
    · exact fun member => (List.dropWhile_sublist _).mem member
    · intro member
      rw [← @List.takeWhile_append_dropWhile _ isBlank characters, List.mem_append] at member
      refine member.resolve_left fun taken => ?_
      rw [List.mem_takeWhile_imp taken] at visible
      cases visible
  rw [trim, String.toList_ofList, List.mem_reverse, kept, List.mem_reverse, kept]

namespace Go

/-- The mark that may stand at the beginning of a text in UTF-8. -/
def byteOrderMark : Char := '\ufeff'

instance (mark : Char) (text : String) : Decidable (Lacks mark text) :=
  inferInstanceAs (Decidable (mark ∉ text.toList))

/-- What a compiler takes from a text: all but a byte order mark at its beginning. A text with NUL,
or with a byte order mark anywhere else, is refused. -/
def source? (text : String) : Option String :=
  let body := match text.toList with
    | '\ufeff' :: rest => .ofList rest
    | _ => text
  if Lacks '\x00' body ∧ Lacks byteOrderMark body then some body else none

/-- A source text that falls into tokens. -/
def IsLexical (alphabet : Alphabet) (text : String) : Prop :=
  ∃ body tokens, source? text = some body ∧ tokens? alphabet body = some tokens

/-- Whether a character may stand for itself in an interpreted string literal. -/
def isLiteralChar (c : Char) : Bool :=
  c != '"' && c != '\\' && c != '\n' && c != '\x00' && c != byteOrderMark

/-- Of the characters that quoting leaves as they are, one is not legal. -/
theorem isLiteralChar_iff_of_escape {c : Char} (itself : escape c = [c]) :
    isLiteralChar c ↔ c ≠ byteOrderMark := by
  obtain ⟨mark, written, _⟩ | ⟨written, _⟩ | ⟨_, quote, backslash, visible⟩ := escape_cases c
  · rw [itself] at written
    cases written
  · rw [itself] at written
    cases written
  · have feed : c ≠ '\n' := fun same => absurd (same ▸ visible) (by decide)
    have nul : c ≠ '\x00' := fun same => absurd (same ▸ visible) (by decide)
    simp [isLiteralChar, quote, backslash, feed, nul]

variable {alphabet : Alphabet} {mark : Char}

theorem Alphabet.IsName.lacks {name : String} (named : alphabet.IsName name)
    (other : alphabet.continuesName mark = false) : Lacks mark name := by
  intro member
  rw [List.all_eq_true.mp named.1.2 mark member] at other
  cases other

theorem lacks_lineText (inside : mark ≠ '\n') {lines : List String} :
    Lacks mark (lineText lines) ↔ ∀ line ∈ lines, Lacks mark line := by
  simp [Lacks, toList_lineText, inside]

/-- Lines that do not begin with a byte order mark are taken whole if they hold neither NUL nor a
byte order mark, and are refused otherwise. -/
theorem source?_lineText {lines : List String}
    (begins : (lineText lines).toList.head? ≠ some byteOrderMark) :
    source? (lineText lines) =
      if (∀ line ∈ lines, Lacks '\x00' line) ∧ ∀ line ∈ lines, Lacks byteOrderMark line then
        some (lineText lines) else none := by
  simp only [← lacks_lineText (show '\x00' ≠ '\n' by decide),
    ← lacks_lineText (show byteOrderMark ≠ '\n' by decide)]
  unfold source?
  split
  · rename_i rest written
    rw [written] at begins
    exact absurd rfl begins
  · rfl

/-! ### The parts of a file -/

/-- The tokens of the head of a file. Its comments have none. -/
def headingTokens (heading : Heading) : List Token :=
  [.keyword .package, .name heading.packageName, .sign .semicolon, .keyword .import,
    .literal "strconv", .sign .semicolon]

theorem reads_comments {lines : List String} (single : ∀ line ∈ lines, IsLine line) :
    Reads alphabet (Item.comments lines).lines [] := by
  have none : (lines.flatMap fun _ => ([] : List Token)) = [] := by simp
  rw [Item.lines, ← none]
  refine .map fun line member => ?_
  have written : ("// " ++ line).toList = '/' :: '/' :: ' ' :: line.toList := by simp
  exact reads_comment (isLine_append.mpr ⟨by decide, single line member⟩) written

theorem reads_packageClause {name : String} (named : alphabet.IsName name) :
    Reads alphabet (Item.packageClause name).lines
      ([.keyword .package, .name name] ++ [.sign .semicolon]) := by
  refine .ended [.word "package", .blank ' ', .word name] ?_ (by simp [Piece.fits]) ?_ ?_ rfl
  · simp only [List.forall_mem_cons, Piece.Sound]
    exact ⟨isWord_plain (by decide), rfl, named.1, by simp⟩
  · simp [Piece.text]
  · simp only [List.flatMap_cons, List.flatMap_nil, Piece.tokens, named.word_eq]
    rfl

theorem reads_importClause (path : String) : Reads alphabet (Item.importClause path).lines
    ([.keyword .import, .literal path] ++ [.sign .semicolon]) := by
  have stands : (Expr.string path).Stands alphabet 1 := trivial
  refine .ended [.word "import", .blank ' ', (Expr.string path).piece] ?_
    (by simp [Piece.fits]) ?_ ?_ rfl
  · simp only [List.forall_mem_cons, Piece.Sound]
    exact ⟨isWord_plain (by decide), rfl, Expr.lexes stands, by simp⟩
  · simp [Piece.text, Expr.text]
  · simp only [List.flatMap_cons, List.flatMap_nil, Piece.tokens]
    rfl

/-- A quoted command stays on its line. -/
theorem reads_heading {heading : Heading} (named : alphabet.IsName heading.packageName) :
    Reads alphabet (layout heading.items) (headingTokens heading) := by
  have remarks : ∀ line ∈ ["Code generated by \"stringer-rs\"; DO NOT EDIT."] ++
      heading.command.toList.map (fun command => "Exec: " ++ quoted command) ++
      ["Version: " ++ Heading.version], IsLine line := by
    simp only [List.forall_mem_append, List.forall_mem_singleton, List.forall_mem_map]
    refine ⟨⟨by decide, ?_⟩, by decide⟩
    intro command _
    exact isLine_append.mpr ⟨by decide, isLine_quoted command⟩
  rw [Heading.items, layout_cons_cons, layout_cons_cons, layout_singleton]
  exact (reads_comments remarks).append (reads_empty.append
    ((reads_packageClause named).append (reads_empty.append (reads_importClause "strconv"))))

theorem lacks_heading_iff {heading : Heading} (hidden : isPlain mark = false)
    (own : Lacks mark heading.packageName) :
    (∀ line ∈ layout heading.items, Lacks mark line) ↔
      ∀ command ∈ heading.command, Lacks mark (quoted command) := by
  have plain := @lacks_of_plainText mark hidden
  have strconv : Lacks mark (quoted "strconv") := plain (by decide)
  rw [lacks_layout hidden]
  simp +decide only [Heading.items, Item.Lacks, Heading.version, List.forall_mem_cons,
    List.forall_mem_append, List.forall_mem_map, List.not_mem_nil, IsEmpty.forall_iff,
    implies_true, lacks_append, own, strconv, plain, true_and, and_true, Option.mem_toList,
    Option.mem_def]

/-- The tokens of a section. -/
def sectionTokens (descriptor : Descriptor) : List Token :=
  ((section? descriptor).getD []).flatMap fun item => item.tokens ++ [.sign .semicolon]

theorem reads_sectionLines {typeName : String} {records : List Record} {descriptor : Descriptor}
    (compiled : Descriptor.Compiled typeName records descriptor)
    (named : alphabet.IsName descriptor.typeName) :
    Reads alphabet (sectionLines descriptor) (sectionTokens descriptor) := by
  obtain ⟨items, found, written⟩ := compiled.written
  rw [sectionLines, sectionTokens, found, Option.getD_some]
  exact reads_layout (written.stands named)

theorem isName_of_mem_numbers {declarations : List Declaration}
    (named : ∀ declaration ∈ declarations, alphabet.IsName declaration.name) :
    ∀ pin ∈ Declaration.numbers declarations, alphabet.IsName pin.1 := by
  intro pin member
  obtain ⟨declaration, among, _, name, _⟩ := Declaration.mem_numbers.mp member
  exact name ▸ named declaration among

/-! ### Whole files -/

/-- Every quoted text of a file lacks a character: the command and the names of the members. -/
structure QuotedLack (mark : Char) (heading : Heading) (descriptors : List Descriptor) : Prop where
  command : ∀ command ∈ heading.command, Lacks mark (quoted command)
  names : ∀ descriptor ∈ descriptors, ∀ run ∈ descriptor.runs, ∀ record ∈ run.records,
    Lacks mark (quoted record.name)

/-- Neither the command nor the name of a member holds a byte order mark. -/
structure Unmarked (heading : Heading) (descriptors : List Descriptor) : Prop where
  command : ∀ command ∈ heading.command, byteOrderMark ∉ command.toList
  names : ∀ descriptor ∈ descriptors, ∀ run ∈ descriptor.runs, ∀ record ∈ run.records,
    byteOrderMark ∉ record.name.toList

theorem quotedLack_of_isControl (hidden : isPlain mark = false) (control : isControl mark = true)
    (heading : Heading) (descriptors : List Descriptor) : QuotedLack mark heading descriptors where
  command _ _ := (lacks_quoted_iff hidden).mpr (.inl control)
  names _ _ _ _ _ _ := (lacks_quoted_iff hidden).mpr (.inl control)

theorem quotedLack_byteOrderMark_iff {heading : Heading} {descriptors : List Descriptor} :
    QuotedLack byteOrderMark heading descriptors ↔ Unmarked heading descriptors := by
  have visible (text : String) :
      Lacks byteOrderMark (quoted text) ↔ byteOrderMark ∉ text.toList :=
    (lacks_quoted_iff rfl).trans (or_iff_right (by decide))
  constructor
  · rintro ⟨command, names⟩
    simp only [visible] at command names
    exact ⟨command, names⟩
  · rintro ⟨command, names⟩
    simp only [← visible] at command names
    exact ⟨command, names⟩

/-- A file begins with a comment. -/
theorem head?_lineText_file (heading : Heading) (rest : List String) :
    (lineText (layout heading.items ++ rest)).toList.head? ≠ some byteOrderMark := by
  have first : ∃ others, layout heading.items =
      "// Code generated by \"stringer-rs\"; DO NOT EDIT." :: others := by
    simp [layout, Heading.items, Item.lines]
  obtain ⟨others, lines⟩ := first
  rw [lines, List.cons_append, lineText_cons, String.toList_append, String.toList_append,
    List.append_assoc, List.head?_append_of_ne_nil _ (by decide)]
  decide

theorem not_isLexical_of_mem (alphabet : Alphabet) (heading : Heading) (line : String)
    {rest : List String} (member : line ∈ rest) (marked : byteOrderMark ∈ line.toList) :
    ¬IsLexical alphabet (lineText (layout heading.items ++ rest)) := by
  rintro ⟨body, _, found, _⟩
  rw [source?_lineText (head?_lineText_file heading rest), if_neg] at found
  · cases found
  · intro clean
    exact clean.2 line (List.mem_append_right _ member) marked

section Files
variable {heading : Heading} (package : alphabet.IsName heading.packageName)
include package

theorem isLexical_file_iff {rest : List String} {tokens : List Token}
    (reads : Reads alphabet rest tokens) :
    IsLexical alphabet (lineText (layout heading.items ++ rest)) ↔
      (∀ line ∈ layout heading.items ++ rest, Lacks '\x00' line) ∧
        ∀ line ∈ layout heading.items ++ rest, Lacks byteOrderMark line := by
  have whole := ((reads_heading package).append reads).tokens?_eq
  rw [IsLexical, source?_lineText (head?_lineText_file heading rest)]
  constructor
  · rintro ⟨body, _, found, _⟩
    by_contra marked
    rw [if_neg marked] at found
    cases found
  · intro clean
    exact ⟨_, _, if_pos clean, whole⟩

/-- A file in which quoted texts alone decide which hidden characters it holds is lexically valid
exactly if they hold no byte order mark. -/
theorem isLexical_file_iff_unmarked {rest : List String} {tokens : List Token}
    {descriptors : List Descriptor} (reads : Reads alphabet rest tokens)
    (lacks : ∀ mark, isPlain mark = false → alphabet.continuesName mark = false →
      ((∀ line ∈ layout heading.items ++ rest, Lacks mark line) ↔
        QuotedLack mark heading descriptors))
    (other : alphabet.continuesName byteOrderMark = false) :
    IsLexical alphabet (lineText (layout heading.items ++ rest)) ↔
      Unmarked heading descriptors := by
  have apart : alphabet.continuesName '\x00' = false :=
    continuesName_low (by decide) (by decide) (by decide)
  rw [isLexical_file_iff package reads, lacks _ rfl apart, lacks _ rfl other,
    quotedLack_byteOrderMark_iff]
  exact and_iff_right (quotedLack_of_isControl rfl rfl heading descriptors)

variable {types : List (Descriptor × List Declaration)}
  (compiled : ∀ entry ∈ types, ∃ typeName records,
    (Descriptor.compile typeName records).outcome = .ok entry.1 ∧ alphabet.IsName typeName)
include compiled

omit package in
theorem reads_sections : Reads alphabet
    (types.flatMap fun entry => "" :: sectionLines entry.1)
    (types.flatMap fun entry => sectionTokens entry.1) := by
  refine .flatMap fun entry member => ?_
  obtain ⟨typeName, records, made, named⟩ := compiled entry member
  have made := Descriptor.compile_eq_ok_iff.mp made
  exact reads_empty.append (reads_sectionLines made (made.typeName_eq ▸ named))

omit package in
theorem lacks_sections_iff (hidden : isPlain mark = false)
    (other : alphabet.continuesName mark = false) :
    (∀ entry ∈ types, ∀ line ∈ sectionLines entry.1, Lacks mark line) ↔
      ∀ descriptor ∈ types.map Prod.fst, ∀ run ∈ descriptor.runs, ∀ record ∈ run.records,
        Lacks mark (quoted record.name) := by
  rw [List.forall_mem_map]
  refine forall₂_congr fun entry member => ?_
  obtain ⟨typeName, records, made, named⟩ := compiled entry member
  have made := Descriptor.compile_eq_ok_iff.mp made
  exact lacks_sectionLines_iff hidden (made.typeName_eq ▸ named.lacks other) made

omit compiled in
theorem lacks_file_iff (hidden : isPlain mark = false)
    (other : alphabet.continuesName mark = false) {rest : List String}
    {descriptors : List Descriptor}
    (parts : (∀ line ∈ rest, Lacks mark line) ↔ ∀ descriptor ∈ descriptors,
      ∀ run ∈ descriptor.runs, ∀ record ∈ run.records, Lacks mark (quoted record.name)) :
    (∀ line ∈ layout heading.items ++ rest, Lacks mark line) ↔
      QuotedLack mark heading descriptors := by
  rw [List.forall_mem_append, lacks_heading_iff hidden (package.lacks other), parts]
  exact ⟨fun ⟨command, names⟩ => ⟨command, names⟩, fun ⟨command, names⟩ => ⟨command, names⟩⟩

theorem isLexical_fileLines_iff (other : alphabet.continuesName byteOrderMark = false) :
    IsLexical alphabet (lineText (fileLines heading (types.map Prod.fst))) ↔
      Unmarked heading (types.map Prod.fst) := by
  rw [fileLines, List.flatMap_map]
  refine isLexical_file_iff_unmarked package (reads_sections compiled) ?_ other
  intro mark hidden other
  apply lacks_file_iff package hidden other
  have empty : Lacks mark "" := lacks_of_plainText hidden (by decide)
  rw [← lacks_sections_iff compiled hidden other]
  simp only [List.forall_mem_flatMap, List.forall_mem_cons, empty, true_and]

theorem isLexical_guardedFileLines_iff
    (declared : ∀ entry ∈ types, ∀ declaration ∈ entry.2, alphabet.IsName declaration.name)
    (other : alphabet.continuesName byteOrderMark = false) :
    IsLexical alphabet (lineText (guardedFileLines heading types)) ↔
      Unmarked heading (types.map Prod.fst) := by
  have pins : ∀ entry ∈ types, ∀ pin ∈ Declaration.numbers entry.2, alphabet.IsName pin.1 :=
    fun entry member => isName_of_mem_numbers (declared entry member)
  have reads : Reads alphabet (types.flatMap guardedLines) (types.flatMap fun entry =>
      guardTokens (Declaration.numbers entry.2) ++ sectionTokens entry.1) := by
    refine .flatMap fun entry member => ?_
    obtain ⟨typeName, records, made, named⟩ := compiled entry member
    have made := Descriptor.compile_eq_ok_iff.mp made
    have guards := reads_guard (pins entry member)
    rw [← layout_singleton] at guards
    exact reads_empty.append (guards.append
      (reads_empty.append (reads_sectionLines made (made.typeName_eq ▸ named))))
  refine isLexical_file_iff_unmarked package reads ?_ other
  intro mark hidden other
  apply lacks_file_iff package hidden other
  have empty : Lacks mark "" := lacks_of_plainText hidden (by decide)
  rw [← lacks_sections_iff compiled hidden other, List.forall_mem_flatMap]
  refine forall₂_congr fun entry member => ?_
  have guards : ∀ line ∈ layout [.guard (Declaration.numbers entry.2)], Lacks mark line := by
    rw [lacks_layout hidden, List.forall_mem_singleton]
    exact fun pin among => (pins entry member pin among).lacks other
  rw [guardedLines, List.forall_mem_cons, List.forall_mem_append, List.forall_mem_cons,
    and_iff_right empty, and_iff_right guards, and_iff_right empty]

end Files

/-- What quoting leaves unescaped may stand in a literal of Go unless it is a byte order mark, which
no name loses when it is trimmed. So no quoted text holds a line feed or NUL, and it holds a byte
order mark exactly if the text does. A file with the tables of compiled types, with guards or
without them, is lexically valid exactly if neither its command nor the name of any member holds
one. -/
theorem isLexical_writeFile_iff {alphabet : Alphabet}
    (other : alphabet.continuesName byteOrderMark = false) :
    (∀ c, escape c = [c] → (isLiteralChar c ↔ c ≠ byteOrderMark)) ∧
      (∀ text, '\n' ∉ (quoted text).toList ∧ '\x00' ∉ (quoted text).toList ∧
        (byteOrderMark ∈ (quoted text).toList ↔ byteOrderMark ∈ text.toList)) ∧
      (∀ trimPrefix declaration comment, declaration.comment = some comment →
        (byteOrderMark ∈ (Policy.printedName ⟨trimPrefix, true⟩ declaration).toList ↔
          byteOrderMark ∈ comment.toList)) ∧
      ∀ (heading : Heading) (types : List (Descriptor × List Declaration)),
        alphabet.IsName heading.packageName →
        (∀ entry ∈ types, ∃ typeName records,
          (Descriptor.compile typeName records).outcome = .ok entry.1 ∧
            alphabet.IsName typeName) →
        (∀ entry ∈ types, ∀ declaration ∈ entry.2, alphabet.IsName declaration.name) →
        ∃ text guarded, writeFile heading (types.map Prod.fst) .unbounded = .ok ⟨text, none⟩ ∧
          writeGuardedFile heading types .unbounded = .ok ⟨guarded, none⟩ ∧
          (IsLexical alphabet text ↔ Unmarked heading (types.map Prod.fst)) ∧
          (IsLexical alphabet guarded ↔ Unmarked heading (types.map Prod.fst)) := by
  refine ⟨fun c => isLiteralChar_iff_of_escape, ?_, ?_, ?_⟩
  · intro text
    refine ⟨?_, ?_, ?_⟩
    · exact newline_notMem_quoted text
    · exact fun member => absurd (isControl_of_mem_quoted member) (by decide)
    · exact (mem_quoted_iff rfl).trans (and_iff_right (by decide))
  · intro trimPrefix declaration comment commented
    rw [Policy.printedName, commented]
    exact Text.mem_trim_iff (by decide)
  · intro heading types package compiled declared
    have written : ∀ entry ∈ types, (section? entry.1).isSome := by
      intro entry member
      obtain ⟨typeName, records, made, _⟩ := compiled entry member
      obtain ⟨items, found, _⟩ := (Descriptor.compile_eq_ok_iff.mp made).written
      simp [found]
    refine ⟨_, _, ?_, ?_, isLexical_fileLines_iff package compiled other,
      isLexical_guardedFileLines_iff package compiled declared other⟩
    · rw [writeFile_eq (List.forall_mem_map.mpr written), writeLines_unbounded]
    · rw [writeGuardedFile_eq written, writeLines_unbounded]

/-- A comment that begins with a byte order mark becomes a name, and the file with that name is
refused. -/
theorem not_isLexical_byteOrderMark : ∃ descriptor text,
    (Descriptor.ofDeclarations ⟨"", true⟩ "T" [⟨"A", .signed 0, some "\ufeffa"⟩]).outcome =
        .ok descriptor ∧
      writeGuardedFile ⟨"p", none⟩ [(descriptor, [⟨"A", .signed 0, some "\ufeffa"⟩])] .unbounded =
        .ok ⟨text, none⟩ ∧
      byteOrderMark ∈ (quoted "\ufeffa").toList ∧ ∀ alphabet, ¬IsLexical alphabet text := by
  have compiled : (Descriptor.compile "T" [⟨"\ufeffa", 0, .signed⟩]).outcome =
    .ok ⟨"T", .signed, .oneRun, [⟨⟨"\ufeffa", 0, .signed⟩, []⟩],
      .perRun [⟨"\ufeffa", .w8 [0, 4]⟩]⟩ := by cbv
  have declared : (Descriptor.ofDeclarations ⟨"", true⟩ "T"
      [⟨"A", .signed 0, some "\ufeffa"⟩]).outcome =
    (Descriptor.compile "T" [⟨"\ufeffa", 0, .signed⟩]).outcome := by cbv
  have marked : byteOrderMark ∈ (quoted "\ufeffa").toList := by decide
  obtain ⟨lead, line⟩ :=
    (Descriptor.compile_eq_ok_iff.mp compiled).exists_line_of_blob List.mem_cons_self
  refine ⟨_, _, declared.trans compiled, (writeGuardedFile_eq (by simp [section?]) _).trans
    (writeLines_unbounded _), marked, fun alphabet => ?_⟩
  apply not_isLexical_of_mem alphabet _ (lead ++ quoted "\ufeffa")
  · refine List.mem_flatMap.mpr ⟨_, List.mem_cons_self, List.mem_cons_of_mem _ ?_⟩
    exact List.mem_append_right _ (List.mem_cons_of_mem _ line)
  · rw [String.toList_append]
    exact List.mem_append_right _ marked

/-- A name and a command in other scripts, and one with NUL, a line feed and a control beyond ASCII,
in a file with a guard. -/
theorem isLexical_writeFile_iff_visible : ∃ text guarded descriptor,
    (Descriptor.compile "T" [⟨"日", 0, .signed⟩, ⟨"\x00\n\x85", 1, .signed⟩]).outcome =
        .ok descriptor ∧
      writeFile ⟨"p", some "Ж"⟩ [descriptor] .unbounded = .ok ⟨text, none⟩ ∧
      writeGuardedFile ⟨"p", some "Ж"⟩ [(descriptor, [⟨"A", .signed 0, none⟩])] .unbounded =
        .ok ⟨guarded, none⟩ ∧
      IsLexical ⟨fun _ => false, fun _ => false⟩ text ∧
      IsLexical ⟨fun _ => false, fun _ => false⟩ guarded ∧
      isLiteralChar 'Ж' ∧
      byteOrderMark ∈ (Policy.printedName ⟨"", true⟩ ⟨"A", .signed 0, some " \ufeffa"⟩).toList := by
  obtain ⟨literal, _, trimmed, files⟩ :=
    @isLexical_writeFile_iff ⟨fun _ => false, fun _ => false⟩ (by decide)
  have compiled : (Descriptor.compile "T"
      [⟨"日", 0, .signed⟩, ⟨"\x00\n\x85", 1, .signed⟩]).outcome =
    .ok ⟨"T", .signed, .oneRun, [⟨⟨"日", 0, .signed⟩, [⟨"\x00\n\x85", 1, .signed⟩]⟩],
      .perRun [⟨"日\x00\n\x85", .w8 [0, 3, 7]⟩]⟩ := by cbv
  obtain ⟨text, guarded, wrote, wroteGuarded, valid, validGuarded⟩ :=
    files ⟨"p", some "Ж"⟩ [(_, [⟨"A", .signed 0, none⟩])] ⟨isWord_plain (by decide), by decide⟩
      (List.forall_mem_singleton.mpr ⟨_, _, compiled, isWord_plain (by decide), by decide⟩)
      (List.forall_mem_singleton.mpr
        (List.forall_mem_singleton.mpr ⟨isWord_plain (by decide), by decide⟩))
  have unmarked : Unmarked ⟨"p", some "Ж"⟩ [⟨"T", .signed, .oneRun,
      [⟨⟨"日", 0, .signed⟩, [⟨"\x00\n\x85", 1, .signed⟩]⟩],
      .perRun [⟨"日\x00\n\x85", .w8 [0, 3, 7]⟩]⟩] := ⟨by decide, by decide⟩
  exact ⟨text, guarded, _, compiled, wrote, wroteGuarded, valid.mpr unmarked,
    validGuarded.mpr unmarked, (literal 'Ж' (by decide)).mpr (by decide),
    (trimmed "" ⟨"A", .signed 0, some " \ufeffa"⟩ _ rfl).mpr (by decide)⟩

end Go
end EnumNames
