import EnumNames.Descriptor
import EnumNames.Proofs.Tables
import Mathlib

/-! Looking a word up in a compiled table. Whatever the layout, the answer is the name of the
first declared record with that value. -/
namespace EnumNames
open Record

namespace Tables

theorem forall₂_of_mapM {α β ε : Type} {f : α → Except ε β} {inputs : List α} {outputs : List β}
    (mapped : inputs.mapM f = .ok outputs) :
    List.Forall₂ (fun input output => f input = .ok output) inputs outputs := by
  induction inputs generalizing outputs with
  | nil =>
    cases mapped
    exact .nil
  | cons input inputs ih =>
    rw [List.mapM_cons] at mapped
    cases first : f input with
    | error error => simp [first, bind, Except.bind] at mapped
    | ok output =>
      cases rest : inputs.mapM f with
      | error error => simp [first, rest, bind, Except.bind] at mapped
      | ok others =>
        simp only [first, rest, bind, Except.bind, pure, Except.pure, Except.ok.injEq] at mapped
        subst mapped
        exact .cons first (ih rest)

theorem build_perRun {strategy : Strategy} {runs : List Run} {tables : Tables}
    (tested : strategy ≠ .sparseMap) (built : build strategy runs = .ok tables) :
    ∃ parts, tables = .perRun parts ∧
      List.Forall₂ (fun run part => NameTable.build run.records = .ok part) runs parts := by
  have mapped : (Tables.perRun <$> runs.mapM fun run => NameTable.build run.records) =
      .ok tables := by
    cases strategy with
    | oneRun => exact built
    | multiRun => exact built
    | sparseMap => exact absurd rfl tested
  cases parts : runs.mapM fun run => NameTable.build run.records with
  | error error => simp [parts, Functor.map, Except.map] at mapped
  | ok parts' =>
    rw [parts] at mapped
    cases mapped
    exact ⟨parts', rfl, forall₂_of_mapM parts⟩

theorem build_sparse {runs : List Run} {tables : Tables}
    (built : build .sparseMap runs = .ok tables) :
    ∃ part, tables = .sparse part ∧ SpanTable.build runs = .ok part := by
  simp only [build] at built
  cases part : SpanTable.build runs with
  | error error => simp [part, Functor.map, Except.map] at built
  | ok part' =>
    rw [part] at built
    cases built
    exact ⟨part', rfl, rfl⟩

/-- The first run that contains a word decides, and it is the run of the first record with it. -/
theorem lookup?_perRun {signedness : Signedness} {runs : List Run} {parts : List NameTable}
    (built : List.Forall₂ (fun run part => NameTable.build run.records = .ok part) runs parts)
    (consecutive : ∀ run ∈ runs, run.Consecutive signedness)
    (size : ∀ run ∈ runs, run.size < UInt64.size) (word : UInt64) :
    lookup? runs (.perRun parts) word =
      (declared? (runs.flatMap Run.records) word).map Record.name := by
  induction built with
  | nil => rfl
  | @cons run part runs parts packed built ih =>
    have rest := ih (fun other member => consecutive other (List.mem_cons_of_mem _ member))
      (fun other member => size other (List.mem_cons_of_mem _ member))
    have counted := consecutive run List.mem_cons_self
    simp only [lookup?, declared?, List.zip_cons_cons, List.findSome?_cons, List.flatMap_cons,
      List.find?_append] at rest ⊢
    cases found : run.position? word with
    | none =>
      have none : run.records.find? (·.value == word) = none := by
        simpa using counted.position?_eq_none_iff.mp found
      rw [none, Option.none_or, ← rest]
      rfl
    | some place =>
      obtain ⟨record, at_place, same⟩ := counted.position?_eq_some found
      have name := NameTable.name?_build packed (size run List.mem_cons_self) at_place
      have first : run.records.find? (·.value == word) = some record :=
        (declared?_eq_some_iff counted.ascending.values_nodup).mpr
          ⟨List.mem_of_getElem? at_place, same⟩
      simp only [first, Option.some_or, Option.map_some, Option.bind_eq_bind, Option.bind_some, name]

/-- One table for all values answers like the runs in order, since no value comes twice. -/
theorem lookup?_sparse {runs : List Run} {part : SpanTable}
    (built : SpanTable.build runs = .ok part)
    (distinct : ((runs.flatMap Run.records).map Record.value).Nodup) (word : UInt64) :
    lookup? runs (.sparse part) word =
      (declared? (runs.flatMap Run.records) word).map Record.name := by
  rw [declared?_perm (List.reverse_perm _).symm distinct]
  exact SpanTable.name?_build built word

/-- Every layout of ascending runs gives each word the name of the record that has it. -/
theorem lookup?_build {signedness : Signedness} {strategy : Strategy} {runs : List Run}
    {tables : Tables} (built : build strategy runs = .ok tables)
    (consecutive : ∀ run ∈ runs, run.Consecutive signedness)
    (size : ∀ run ∈ runs, run.size < UInt64.size)
    (ascends : Ascending signedness (runs.flatMap Run.records)) (word : UInt64) :
    lookup? runs tables word = (declared? (runs.flatMap Run.records) word).map Record.name := by
  by_cases sparse : strategy = .sparseMap
  · subst sparse
    obtain ⟨part, rfl, packed⟩ := build_sparse built
    exact lookup?_sparse packed ascends.values_nodup word
  · obtain ⟨parts, rfl, packed⟩ := build_perRun sparse built
    exact lookup?_perRun packed consecutive size word

end Tables

namespace Descriptor

/-- What a compiled descriptor holds. -/
structure Compiled (typeName : String) (records : List Record) (descriptor : Descriptor) :
    Prop where
  typeName_eq : descriptor.typeName = typeName
  nonempty : records ≠ []
  uniform : ∀ record ∈ records, record.signedness = descriptor.signedness
  runs_eq : descriptor.runs = Run.split (distinct records)
  strategy_eq : descriptor.strategy = Strategy.select descriptor.runs.length
  built : Tables.build descriptor.strategy descriptor.runs = .ok descriptor.tables

theorem compile_eq_ok_iff {typeName : String} {records : List Record} {descriptor : Descriptor} :
    (compile typeName records).outcome = .ok descriptor ↔
      Compiled typeName records descriptor := by
  constructor
  · intro compiled
    simp only [compile, Record.normalize, Run.splitReported, bind, Traced.bind, Traced.ofExcept,
      Traced.report, pure] at compiled
    cases common : commonSignedness typeName records with
    | error error => simp [common] at compiled
    | ok signedness =>
      simp only [common] at compiled
      cases built : Tables.build (Strategy.select (Run.split (distinct records)).length)
          (Run.split (distinct records)) with
      | error error => simp [built] at compiled
      | ok tables =>
        simp only [built, Except.ok.injEq] at compiled
        subst compiled
        obtain ⟨nonempty, uniform⟩ := commonSignedness_eq_ok_iff.mp common
        exact ⟨rfl, nonempty, uniform, rfl, rfl, built⟩
  · rintro ⟨rfl, nonempty, uniform, runs, strategy, built⟩
    have common : commonSignedness descriptor.typeName records = .ok descriptor.signedness :=
      commonSignedness_eq_ok_iff.mpr ⟨nonempty, uniform⟩
    rw [strategy, runs] at built
    simp only [compile, Record.normalize, Run.splitReported, bind, Traced.bind, Traced.ofExcept,
      Traced.report, pure, common, built]
    rw [← runs, ← strategy]

namespace Compiled
variable {typeName : String} {records : List Record} {descriptor : Descriptor}
  (compiled : Compiled typeName records descriptor)
include compiled

theorem members_eq : descriptor.runs.flatMap Run.records = distinct records := by
  rw [compiled.runs_eq, Run.flatMap_records_split]

theorem runs_ne_nil : descriptor.runs ≠ [] := by
  rw [compiled.runs_eq]
  exact Run.split_ne_nil (distinct_ne_nil compiled.uniform compiled.nonempty)

theorem ascending : Ascending descriptor.signedness (descriptor.runs.flatMap Run.records) :=
  compiled.members_eq ▸ ascending_distinct compiled.uniform

theorem consecutive : ∀ run ∈ descriptor.runs, run.Consecutive descriptor.signedness := by
  intro run member
  rw [compiled.runs_eq] at member
  refine Run.consecutive_of_mem ?_ (ascending_distinct compiled.uniform) member
  intro record inside
  exact compiled.uniform record (mem_of_mem_distinct inside)

theorem size_le : ∀ run ∈ descriptor.runs, run.size ≤ records.length := by
  intro run member
  rw [compiled.runs_eq] at member
  have part := (Run.records_sublist member).trans (distinct_sublist records)
  exact part.length_le.trans_eq (List.mergeSort_perm _ _).length_eq

/-- A word is looked up right as long as the places in the runs are words. -/
theorem lookup?_of_sizes (size : ∀ run ∈ descriptor.runs, run.size < UInt64.size)
    (word : UInt64) : descriptor.lookup? word = (declared? records word).map Record.name := by
  rw [Descriptor.lookup?, Tables.lookup?_build compiled.built compiled.consecutive size
    compiled.ascending, compiled.members_eq, declared?_distinct compiled.uniform]

theorem lookup? (size : records.length < UInt64.size) (word : UInt64) :
    descriptor.lookup? word = (declared? records word).map Record.name :=
  compiled.lookup?_of_sizes (fun run member => (compiled.size_le run member).trans_lt size) word

end Compiled

/-- Compiling and looking up is searching for the first declared constant, whatever the order of
the constants and the layout of the table. -/
theorem lookup?_compile {typeName : String} {records : List Record} {descriptor : Descriptor}
    (compiled : (compile typeName records).outcome = .ok descriptor)
    (size : records.length < UInt64.size) (word : UInt64) :
    (∀ record ∈ records, record.signedness = descriptor.signedness) ∧
      descriptor.lookup? word = (records.find? (·.value == word)).map Record.name ∧
      descriptor.render word = ((records.find? (·.value == word)).map Record.name).getD
        (typeName ++ "(" ++ toString (descriptor.signedness.read word) ++ ")") := by
  have holds := compile_eq_ok_iff.mp compiled
  have found : descriptor.lookup? word = (records.find? (·.value == word)).map Record.name :=
    holds.lookup? size word
  refine ⟨holds.uniform, found, ?_⟩
  rw [render, found, fallback, holds.typeName_eq]
  rfl

/-- Two runs around the least and the greatest integer, a repeated value and an empty name. -/
theorem lookup?_compile_extremes : ∃ descriptor,
    (compile "Level" [⟨"höchst", 0x7fffffffffffffff, .signed⟩, ⟨"", 0x8000000000000000, .signed⟩,
      ⟨"again", 0x7fffffffffffffff, .signed⟩]).outcome = .ok descriptor ∧
    descriptor.lookup? 0x7fffffffffffffff = some "höchst" ∧
    descriptor.lookup? 0x8000000000000000 = some "" ∧
    descriptor.render 0xffffffffffffffff = "Level(-1)" := by
  have compiled : (compile "Level" [⟨"höchst", 0x7fffffffffffffff, .signed⟩,
      ⟨"", 0x8000000000000000, .signed⟩, ⟨"again", 0x7fffffffffffffff, .signed⟩]).outcome =
    .ok ⟨"Level", .signed, .multiRun, [⟨⟨"", 0x8000000000000000, .signed⟩, []⟩,
      ⟨⟨"höchst", 0x7fffffffffffffff, .signed⟩, []⟩],
      .perRun [⟨"", .w8 [0, 0]⟩, ⟨"höchst", .w8 [0, 7]⟩]⟩ := by cbv
  refine ⟨_, compiled, ?_, ?_, ?_⟩
  · exact (lookup?_compile compiled (by decide) _).2.1
  · exact (lookup?_compile compiled (by decide) _).2.1
  · exact (lookup?_compile compiled (by decide) _).2.2

end Descriptor
end EnumNames
