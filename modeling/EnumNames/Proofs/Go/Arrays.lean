import EnumNames.Proofs.Go.Quoted
import EnumNames.Proofs.Go.Scope
import EnumNames.Proofs.Widths

/-! Offsets in Go text. The array of a run lists its offsets as they are stored, and its elements
are words of the width that was chosen for them, so that none is cut. -/
namespace EnumNames

namespace Go

/-- What stands in front of the offsets of a run. Among several runs they have the place of the run
in their name. -/
def arrayLead (descriptor : Descriptor) (place : Nat) : String :=
  match descriptor.strategy with
  | .oneRun => "var " ++ offsetsName descriptor.typeName ++ " = "
  | _ => "\t" ++ numbered (offsetsName descriptor.typeName) place ++ " = "

/-- Each run of several members has a variable. -/
theorem mem_offsets_of_getElem? (typeName : String) {runs : List Run} {tables : List NameTable}
    {place : Nat} {run : Run} {table : NameTable} (atRun : runs[place]? = some run)
    (atTable : tables[place]? = some table) (several : run.others ≠ []) :
    (numbered (offsetsName typeName) place, offsetsArray table) ∈
      offsets typeName runs tables 0 := by
  have paired : ((run, table), place) ∈ (runs.zip tables).zipIdx := by
    rw [List.mem_zipIdx_iff_getElem?, List.getElem?_zip_eq_some]
    exact ⟨atRun, atTable⟩
  refine List.mem_filterMap.mpr ⟨_, paired, ?_⟩
  exact if_neg (by simpa using several)

end Go

namespace Descriptor.Compiled
open Go
variable {typeName : String} {records : List Record} {descriptor : Descriptor}
  (compiled : Compiled typeName records descriptor)
include compiled

/-- Each run that is read through its offsets has a line of the section for them. -/
theorem exists_line_of_offsets {tables : List NameTable}
    (stored : descriptor.tables = .perRun tables) {place : Nat} {run : Run} {table : NameTable}
    (atRun : descriptor.runs[place]? = some run) (atTable : tables[place]? = some table)
    (indexed : descriptor.strategy = .oneRun ∨ run.others ≠ []) :
    arrayLead descriptor place ++ (offsetsArray table).text ∈ sectionLines descriptor := by
  obtain ⟨items, found, written⟩ := compiled.written
  rw [sectionLines, found, Option.getD_some]
  cases written with
  | @oneRun only packed runs built chosen =>
    have each : List.Forall₂ (fun run table => NameTable.build run.records = .ok table)
        descriptor.runs [packed] := runs ▸ .cons built .nil
    obtain rfl : [packed] = tables :=
      Tables.perRun.inj ((compiled.tables_eq_perRun (by simp [chosen]) each).symm.trans stored)
    obtain ⟨rfl, rfl⟩ : place = 0 ∧ packed = table := by
      simpa [List.getElem?_singleton, eq_comm] using atTable
    obtain ⟨_, _, lines⟩ := layout_oneRun descriptor only packed
    rw [lines, arrayLead, chosen]
    exact List.mem_cons_of_mem _ (List.mem_cons_of_mem _ List.mem_cons_self)
  | @multiRun packed built chosen =>
    obtain rfl : packed = tables :=
      Tables.perRun.inj ((compiled.tables_eq_perRun (by simp [chosen]) built).symm.trans stored)
    have several : run.others ≠ [] := indexed.resolve_left (by simp [chosen])
    have among := mem_offsets_of_getElem? descriptor.typeName atRun atTable several
    have line : arrayLead descriptor place ++ (offsetsArray table).text =
        definitionLine
          (numbered (offsetsName descriptor.typeName) place, offsetsArray table) := by
      simp only [arrayLead, chosen, definitionLine, indent, String.append_assoc]
    rw [layout_multiRun, if_neg (by simpa using List.ne_nil_of_mem among), line]
    refine List.mem_append_right _ (List.mem_cons_of_mem _ (List.mem_append_left _ ?_))
    exact List.mem_append_left _ (definitionLine_mem_group among)
  | @sparseMap packed built chosen =>
    rw [compiled.tables_eq_sparse chosen built] at stored
    cases stored

/-- Unless there are many runs, each of them has a table with one offset more than members. -/
theorem exists_measured (tested : descriptor.strategy ≠ .sparseMap) :
    ∃ tables, descriptor.tables = .perRun tables ∧
      List.Forall₂ (fun run table => NameTable.Measured run.size table) descriptor.runs tables := by
  obtain ⟨tables, stored, packed⟩ := Tables.build_perRun tested compiled.built
  exact ⟨tables, stored, packed.imp fun run table built => NameTable.measured_of_build built⟩

/-- An `int` holds the lengths of all arrays, as Go asks for, unless there are more records than it
holds itself. -/
theorem int_holds_length_offsets (few : records.length < 0x7fffffffffffffff)
    (tested : descriptor.strategy ≠ .sparseMap) : ∃ tables, descriptor.tables = .perRun tables ∧
      ∀ table ∈ tables, IntType.int.holds table.offsets.toList.length := by
  obtain ⟨tables, stored, measured⟩ := compiled.exists_measured tested
  refine ⟨tables, stored, fun table member => ?_⟩
  obtain ⟨place, bound, rfl⟩ := List.getElem_of_mem member
  have atRun : place < descriptor.runs.length := measured.length_eq ▸ bound
  have count := (measured.get atRun bound).count
  have size := compiled.size_le _ (List.getElem_mem atRun)
  have greatest : IntType.int.greatest = 0x7fffffffffffffff := by decide
  rw [IntType.holds_nat, greatest]
  simp only [List.get_eq_getElem] at count
  omega

/-- The offsets of a run end a line of the section. -/
theorem writeSection_of_offsets {tables : List NameTable}
    (stored : descriptor.tables = .perRun tables) {place : Nat} {run : Run} {table : NameTable}
    (atRun : descriptor.runs[place]? = some run) (atTable : tables[place]? = some table)
    (indexed : descriptor.strategy = .oneRun ∨ run.others ≠ []) :
    ∃ before after, writeSection descriptor .unbounded =
      .ok ⟨before ++ (arrayLead descriptor place ++ (offsetsArray table).text) ++ "\n" ++ after,
        none⟩ := by
  obtain ⟨items, found, _⟩ := compiled.written
  obtain ⟨before, after, text⟩ :=
    lineText_of_mem (compiled.exists_line_of_offsets stored atRun atTable indexed)
  refine ⟨before, after, ?_⟩
  rw [writeSection_eq (by simp [found]), writeLines_unbounded, text]

end Descriptor.Compiled

namespace Go
open Record

/-- A compiled descriptor of few runs has a table for each of them, with one offset more than the
run has members, from zero up to the length of its text. Their words are the narrowest that hold
them, and the width of the descriptor is the narrowest for the offsets of all runs, which the
longest text decides. Where the section has an array for a run, it lists these offsets in words of
that width. A descriptor of many runs has the narrowest words that hold the ends of all names, which
the length of all names decides. -/
theorem indexWidth_compile {typeName : String} {records : List Record} {descriptor : Descriptor}
    (compiled : (Descriptor.compile typeName records).outcome = .ok descriptor) :
    (descriptor.strategy ≠ .sparseMap → ∃ tables, descriptor.tables = .perRun tables ∧
        List.Forall₂ (fun run table => NameTable.Measured run.size table) descriptor.runs tables ∧
        descriptor.indexWidth.Narrowest (tables.flatMap (·.offsets.toList)) ∧
        (∃ longest ∈ tables,
          (∀ table ∈ tables, table.blob.utf8ByteSize ≤ longest.blob.utf8ByteSize) ∧
            Width.forLength longest.blob.utf8ByteSize = .ok descriptor.indexWidth) ∧
        ∀ place run table, descriptor.runs[place]? = some run → tables[place]? = some table →
          descriptor.strategy = .oneRun ∨ run.others ≠ [] → ∃ before after,
            writeSection descriptor .unbounded = .ok ⟨before ++ (arrayLead descriptor place ++
              ("[...]uint" ++ toString table.width.bits ++ "\x7b" ++
                ", ".intercalate (table.offsets.toList.map toString) ++ "\x7d")) ++ "\n" ++ after,
              none⟩) ∧
      (descriptor.strategy = .sparseMap → ∃ table, descriptor.tables = .sparse table ∧
        descriptor.indexWidth.Narrowest (table.spans.map (·.2.stop.toNat)) ∧
        Width.forLength ((descriptor.runs.flatMap Run.records).map (·.name.utf8ByteSize)).sum =
          .ok descriptor.indexWidth) := by
  replace compiled := Descriptor.compile_eq_ok_iff.mp compiled
  constructor
  · intro tested
    obtain ⟨tables, stored, measured⟩ := compiled.exists_measured tested
    have width : descriptor.indexWidth = (Tables.perRun tables).width := by
      rw [Descriptor.indexWidth, stored]
    have each : ∀ table ∈ tables, ∃ members, NameTable.Measured members table := by
      intro table member
      obtain ⟨place, bound, rfl⟩ := List.getElem_of_mem member
      exact ⟨_, measured.get (measured.length_eq ▸ bound) bound⟩
    have nonempty : tables ≠ [] := by
      rintro rfl
      exact compiled.runs_ne_nil (List.forall₂_nil_right_iff.mp measured)
    refine ⟨tables, stored, measured, width ▸ Tables.narrowest_perRun each,
      width ▸ Tables.forLength_longest each nonempty, ?_⟩
    intro place run table atRun atTable indexed
    exact compiled.writeSection_of_offsets stored atRun atTable indexed
  · intro chosen
    obtain ⟨table, stored, built⟩ := Tables.build_sparse (chosen ▸ compiled.built)
    have width : descriptor.indexWidth = table.width := by rw [Descriptor.indexWidth, stored]; rfl
    have nonempty : descriptor.runs.flatMap Run.records ≠ [] :=
      compiled.members_eq ▸ distinct_ne_nil compiled.uniform compiled.nonempty
    refine ⟨table, stored, width ▸ SpanTable.narrowest_stops built nonempty, ?_⟩
    have blob : table.blob = joined (descriptor.runs.flatMap Run.records) :=
      (SpanTable.build_eq_ok built).1.blob
    rw [width, ← utf8ByteSize_joined, ← blob]
    exact (SpanTable.build_eq_ok built).2

set_option maxRecDepth 8000 in
/-- A run whose last name leaves byte offsets, in front of one that has no array. -/
theorem indexWidth_compile_boundary : ∃ descriptor, (Descriptor.compile "T"
      [⟨.ofList (List.replicate 255 'x'), 0, .unsigned⟩, ⟨"ß", 1, .unsigned⟩,
        ⟨"a", 7, .unsigned⟩]).outcome = .ok descriptor ∧
    descriptor.strategy ≠ .sparseMap ∧
    (∃ tables, descriptor.tables = .perRun tables ∧
      List.Forall₂ (fun run table => NameTable.Measured run.size table) descriptor.runs tables ∧
      descriptor.indexWidth.Narrowest (tables.flatMap (·.offsets.toList))) ∧
    descriptor.indexWidth = .w16 ∧
    ∃ before after, writeSection descriptor .unbounded =
      .ok ⟨before ++ "\t_T_index_0 = [...]uint16\x7b0, 255, 257\x7d" ++ "\n" ++ after,
        none⟩ := by
  have compiled : (Descriptor.compile "T" [⟨.ofList (List.replicate 255 'x'), 0, .unsigned⟩,
      ⟨"ß", 1, .unsigned⟩, ⟨"a", 7, .unsigned⟩]).outcome =
    .ok ⟨"T", .unsigned, .multiRun,
      [⟨⟨.ofList (List.replicate 255 'x'), 0, .unsigned⟩, [⟨"ß", 1, .unsigned⟩]⟩,
        ⟨⟨"a", 7, .unsigned⟩, []⟩],
      .perRun [⟨.ofList (List.replicate 255 'x' ++ ['ß']), .w16 [0, 255, 257]⟩,
        ⟨"a", .w8 [0, 1]⟩]⟩ := by cbv
  obtain ⟨tables, stored, measured, narrowest, _, arrays⟩ :=
    (indexWidth_compile compiled).1 (by decide)
  refine ⟨_, compiled, by decide, ⟨tables, stored, measured, narrowest⟩, by decide, ?_⟩
  obtain rfl := Tables.perRun.inj stored
  obtain ⟨before, after, text⟩ := arrays 0 _ _ rfl rfl (.inr (by decide))
  refine ⟨before, after, text.trans ?_⟩
  exact congrArg (fun line => Except.ok (⟨before ++ line ++ "\n" ++ after, none⟩ : Sink))
    (by decide)

end Go
end EnumNames
