import EnumNames.Go.Section
import EnumNames.Proofs.Lookup

/-! Every compiled descriptor has a section, in one of three shapes. -/
namespace EnumNames

namespace Go

/-- What the section of a descriptor is written from. -/
inductive Written (descriptor : Descriptor) : List Item → Prop
  | oneRun {run : Run} {table : NameTable} (runs : descriptor.runs = [run])
    (built : NameTable.build run.records = .ok table) (chosen : descriptor.strategy = .oneRun) :
    Written descriptor (oneRun descriptor run table)
  | multiRun {tables : List NameTable}
    (built : List.Forall₂ (fun run table => NameTable.build run.records = .ok table)
      descriptor.runs tables) (chosen : descriptor.strategy = .multiRun) :
    Written descriptor (multiRun descriptor tables)
  | sparseMap {table : SpanTable} (built : SpanTable.build descriptor.runs = .ok table)
    (chosen : descriptor.strategy = .sparseMap) :
    Written descriptor (sparseMap descriptor table)

end Go

namespace Descriptor.Compiled
variable {typeName : String} {records : List Record} {descriptor : Descriptor}
  (compiled : Compiled typeName records descriptor)
include compiled

/-- A compiled descriptor can be written. -/
theorem written : ∃ items, Go.section? descriptor = some items ∧ Go.Written descriptor items := by
  have strategy := compiled.strategy_eq
  have built := compiled.built
  cases chosen : descriptor.strategy with
  | oneRun =>
    rw [chosen] at strategy built
    obtain ⟨tables, same, packed⟩ := Tables.build_perRun (by simp) built
    have single : descriptor.runs.length ≤ 1 := by
      by_contra several
      simp only [Strategy.select, several, if_false] at strategy
      split at strategy <;> cases strategy
    obtain ⟨run, runs, whole⟩ := List.exists_cons_of_ne_nil compiled.runs_ne_nil
    rw [whole] at packed single
    obtain rfl : runs = [] := by simpa using single
    obtain ⟨table, _, first, none, rfl⟩ := List.forall₂_cons_left_iff.mp packed
    cases none
    exact ⟨_, by simp only [Go.section?, chosen, same, whole], .oneRun whole first chosen⟩
  | multiRun =>
    rw [chosen] at built
    obtain ⟨tables, same, packed⟩ := Tables.build_perRun (by simp) built
    exact ⟨_, by simp only [Go.section?, chosen, same], .multiRun packed chosen⟩
  | sparseMap =>
    rw [chosen] at built
    obtain ⟨table, same, packed⟩ := Tables.build_sparse built
    exact ⟨_, by simp only [Go.section?, chosen, same], .sparseMap packed chosen⟩

end Descriptor.Compiled
end EnumNames
