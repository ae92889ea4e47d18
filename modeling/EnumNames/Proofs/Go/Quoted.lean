import EnumNames.Proofs.Go.Layout
import EnumNames.Proofs.Go.Lines
import EnumNames.Proofs.Go.Section

/-! Quoted texts in front of any other text. A reader of string literals stops right behind what was
written and gives back the text that it stands for. Nothing that is written can break a line, so the
packed names of a type and the command that made a file stay on one line each. -/
namespace EnumNames

/-- The texts that names are packed into. -/
def Tables.blobs : Tables → List String
  | .perRun tables => tables.map NameTable.blob
  | .sparse table => [table.blob]

namespace Go

/-- The text that the interpreted string literal at the beginning stands for, and what follows the
literal. -/
def interpreted? : List Char → Option (String × List Char)
  | '"' :: rest => (literal? rest).map fun (text, rest) => (.ofList text, rest)
  | _ => none

theorem interpreted?_append (text : String) (rest : List Char) :
    interpreted? ((quoted text).toList ++ rest) = some (text, rest) := by
  simp [toList_quoted, interpreted?, literal?_flatMap_escape]

/-- The command stands on the second line of a file. -/
theorem writeLines_items (packageName command : String) : ∃ after,
    writeLines (layout (Heading.items ⟨packageName, some command⟩)) .unbounded =
      .ok ⟨"// Code generated by \"stringer-rs\"; DO NOT EDIT." ++ "\n" ++
        "// Exec: " ++ quoted command ++ "\n" ++ after, none⟩ := by
  have lines : layout (Heading.items ⟨packageName, some command⟩) =
      ["// Code generated by \"stringer-rs\"; DO NOT EDIT.", "// Exec: " ++ quoted command,
        "// Version: 0.1.0", "", "package " ++ packageName, "", "import " ++ quoted "strconv"] := by
    simp [layout, Heading.items, Item.lines, Heading.version, ← String.append_assoc]
  rw [writeLines_unbounded, lines, lineText_cons, lineText_cons]
  exact ⟨_, by simp only [String.append_assoc]; rfl⟩

theorem definitionLine_mem_group {keyword : String} {definitions : List (String × Expr)}
    {definition : String × Expr} (member : definition ∈ definitions) :
    definitionLine definition ∈ group keyword definitions := by
  rw [group_eq]
  exact List.mem_cons_of_mem _ (List.mem_append_left _ (List.mem_map_of_mem member))

/-- Each packed text of runs has a constant. -/
theorem exists_mem_blobs {typeName : String} {tables : List NameTable} {table : NameTable}
    (member : table ∈ tables) :
    ∃ place, (numbered (blobName typeName) place, .string table.blob) ∈ blobs typeName tables 0 := by
  obtain ⟨place, bound, rfl⟩ := List.getElem_of_mem member
  refine ⟨place, List.mem_map.mpr ⟨(tables[place], place), ?_, rfl⟩⟩
  simp [List.mem_zipIdx_iff_getElem?, bound]

end Go

namespace Descriptor.Compiled
open Go
variable {typeName : String} {records : List Record} {descriptor : Descriptor}
  (compiled : Compiled typeName records descriptor)
include compiled

theorem tables_eq_perRun (tested : descriptor.strategy ≠ .sparseMap) {tables : List NameTable}
    (built : List.Forall₂ (fun run table => NameTable.build run.records = .ok table)
      descriptor.runs tables) : descriptor.tables = .perRun tables := by
  obtain ⟨parts, same, packed⟩ := Tables.build_perRun tested compiled.built
  have determined : Relator.RightUnique fun (run : Run) table =>
      NameTable.build run.records = .ok table := fun _ _ _ left right =>
    Except.ok.inj (left.symm.trans right)
  rw [same, List.right_unique_forall₂' determined packed built]

theorem tables_eq_sparse (chosen : descriptor.strategy = .sparseMap) {table : SpanTable}
    (built : SpanTable.build descriptor.runs = .ok table) : descriptor.tables = .sparse table := by
  obtain ⟨part, same, packed⟩ := Tables.build_sparse (chosen ▸ compiled.built)
  rw [same, Except.ok.inj (packed.symm.trans built)]

/-- Each packed text ends a line of the section. -/
theorem exists_line_of_blob {blob : String} (member : blob ∈ descriptor.tables.blobs) :
    ∃ lead, lead ++ quoted blob ∈ sectionLines descriptor := by
  obtain ⟨items, found, written⟩ := compiled.written
  rw [sectionLines, found, Option.getD_some]
  cases written with
  | @oneRun run table runs built chosen =>
    have packed : List.Forall₂ (fun run table => NameTable.build run.records = .ok table)
        descriptor.runs [table] := runs ▸ .cons built .nil
    rw [compiled.tables_eq_perRun (by simp [chosen]) packed] at member
    obtain rfl := List.mem_singleton.mp member
    obtain ⟨_, _, lines⟩ := layout_oneRun descriptor run table
    rw [lines]
    exact ⟨_, List.mem_cons_self⟩
  | @multiRun tables built chosen =>
    rw [compiled.tables_eq_perRun (by simp [chosen]) built] at member
    obtain ⟨table, among, rfl⟩ := List.mem_map.mp member
    obtain ⟨place, inside⟩ := @exists_mem_blobs descriptor.typeName _ _ among
    have line : "\t" ++ (numbered (blobName descriptor.typeName) place ++ " = ") ++
        quoted table.blob =
      definitionLine (numbered (blobName descriptor.typeName) place, .string table.blob) := by
      simp only [definitionLine, indent, Expr.text, String.append_assoc]
    rw [layout_multiRun]
    exact ⟨_, line ▸ List.mem_append_left _ (definitionLine_mem_group inside)⟩
  | @sparseMap table built chosen =>
    rw [compiled.tables_eq_sparse chosen built] at member
    obtain rfl := List.mem_singleton.mp member
    rw [layout_sparseMap]
    exact ⟨_, List.mem_cons_self⟩

/-- Behind each packed text in the section its line ends. -/
theorem writeSection_of_blob {blob : String} (member : blob ∈ descriptor.tables.blobs) :
    ∃ before after, writeSection descriptor .unbounded =
      .ok ⟨before ++ quoted blob ++ "\n" ++ after, none⟩ := by
  obtain ⟨items, found, _⟩ := compiled.written
  obtain ⟨lead, line⟩ := compiled.exists_line_of_blob member
  obtain ⟨before, after, text⟩ := lineText_of_mem line
  refine ⟨before ++ lead, after, ?_⟩
  rw [writeSection_eq (by simp [found]), writeLines_unbounded, text]
  simp only [String.append_assoc]

end Descriptor.Compiled

namespace Go

/-- A quoted text is read back whatever follows it, and what follows is left. It holds no control
character. So in the heading of a file the quoted command fills its line, and in the section of a
type each of the quoted texts with its names stands on one line and ends it. -/
theorem interpreted?_quoted (text : String) :
    (∀ rest, interpreted? ((quoted text).toList ++ rest) = some (text, rest)) ∧
      (∀ c ∈ (quoted text).toList, isControl c = false) ∧
      (∀ packageName, ∃ after,
        writeLines (layout (Heading.items ⟨packageName, some text⟩)) .unbounded =
          .ok ⟨"// Code generated by \"stringer-rs\"; DO NOT EDIT." ++ "\n" ++
            "// Exec: " ++ quoted text ++ "\n" ++ after, none⟩) ∧
      ∀ typeName records descriptor,
        (Descriptor.compile typeName records).outcome = .ok descriptor →
        text ∈ descriptor.tables.blobs → ∃ before after,
          writeSection descriptor .unbounded =
            .ok ⟨before ++ quoted text ++ "\n" ++ after, none⟩ := by
  refine ⟨interpreted?_append text, fun c => isControl_of_mem_quoted,
    fun packageName => writeLines_items packageName text, ?_⟩
  intro typeName records descriptor compiled member
  exact (Descriptor.compile_eq_ok_iff.mp compiled).writeSection_of_blob member

/-- A backslash in front of a letter, a control character beyond ASCII and a quotation mark at the
end, with another one behind the literal. -/
theorem interpreted?_quoted_marks :
    interpreted? ((quoted "\\u\x85\"").toList ++ ['"', 'u']) = some ("\\u\x85\"", ['"', 'u']) ∧
      ∃ descriptor, (Descriptor.compile "Mark" [⟨"\\u\x85\"", 7, .signed⟩]).outcome = .ok descriptor ∧
        ∃ before after, writeSection descriptor .unbounded =
          .ok ⟨before ++ quoted "\\u\x85\"" ++ "\n" ++ after, none⟩ := by
  obtain ⟨reads, _, _, fills⟩ := interpreted?_quoted "\\u\x85\""
  have compiled : (Descriptor.compile "Mark" [⟨"\\u\x85\"", 7, .signed⟩]).outcome =
    .ok ⟨"Mark", .signed, .oneRun, [⟨⟨"\\u\x85\"", 7, .signed⟩, []⟩],
      .perRun [⟨"\\u\x85\"", .w8 [0, 5]⟩]⟩ := by cbv
  exact ⟨reads _, _, compiled, fills _ _ _ compiled List.mem_cons_self⟩

end Go
end EnumNames
