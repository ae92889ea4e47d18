import EnumNames.Go.File
import EnumNames.Proofs.Lookup

/-! Compiled descriptors are canonical. The type's name, the signedness and the answers to all
lookups determine every other field, however the constants were listed. -/
namespace EnumNames.Descriptor
open Record

/-- Records are equal when they share word, signedness and name. -/
theorem declared?_eq_of_names {left right : List Record} {signedness : Signedness}
    (uniformLeft : ∀ record ∈ left, record.signedness = signedness)
    (uniformRight : ∀ record ∈ right, record.signedness = signedness) {word : UInt64}
    (names : (declared? left word).map Record.name = (declared? right word).map Record.name) :
    declared? left word = declared? right word := by
  cases l : declared? left word with
  | none =>
    rw [l, Option.map_none, eq_comm, Option.map_eq_none_iff] at names
    exact names.symm
  | some record =>
    rw [l, Option.map_some, eq_comm, Option.map_eq_some_iff] at names
    obtain ⟨other, r, same⟩ := names
    rw [r]
    have values := (declared?_value l).trans (declared?_value r).symm
    have kinds := (uniformLeft _ (declared?_mem l)).trans (uniformRight _ (declared?_mem r)).symm
    cases record
    cases other
    simp_all

namespace Compiled
variable {left right : List Record} {first second : Descriptor} {leftType rightType : String}
  (compiledLeft : Compiled leftType left first) (compiledRight : Compiled rightType right second)
include compiledLeft compiledRight

theorem signedness_eq_of_declared? (same : ∀ word, declared? left word = declared? right word) :
    first.signedness = second.signedness := by
  obtain ⟨record, others, rfl⟩ := List.exists_cons_of_ne_nil compiledLeft.nonempty
  have found : declared? right record.value = some record := by
    rw [← same]
    simp [declared?]
  rw [← compiledLeft.uniform record List.mem_cons_self,
    ← compiledRight.uniform record (declared?_mem found)]

/-- The members fix the runs, and these fix the strategy and the tables. -/
theorem eq_of_members (types : leftType = rightType)
    (signedness : first.signedness = second.signedness)
    (members : first.runs.flatMap Run.records = second.runs.flatMap Run.records) :
    first = second := by
  have runs : first.runs = second.runs := by
    rw [compiledLeft.members_eq, compiledRight.members_eq] at members
    rw [compiledLeft.runs_eq, compiledRight.runs_eq, members]
  have strategy : first.strategy = second.strategy := by
    rw [compiledLeft.strategy_eq, compiledRight.strategy_eq, runs]
  have tables : first.tables = second.tables := by
    have built := compiledLeft.built
    rw [strategy, runs, compiledRight.built, Except.ok.injEq] at built
    exact built.symm
  have typeName : first.typeName = second.typeName := by
    rw [compiledLeft.typeName_eq, compiledRight.typeName_eq, types]
  cases first
  cases second
  simp_all

/-- What is declared for each word fixes the members. -/
theorem eq_of_declared? (types : leftType = rightType)
    (same : ∀ word, declared? left word = declared? right word) : first = second := by
  have signedness := signedness_eq_of_declared? compiledLeft compiledRight same
  refine eq_of_members compiledLeft compiledRight types signedness ?_
  rw [compiledLeft.members_eq, compiledRight.members_eq]
  refine Ascending.ext (ascending_distinct compiledLeft.uniform)
    (signedness ▸ ascending_distinct compiledRight.uniform) ?_
  intro word
  rw [declared?_distinct compiledLeft.uniform, declared?_distinct compiledRight.uniform, same]

theorem eq_of_lookup? (sizeLeft : left.length < UInt64.size) (sizeRight : right.length < UInt64.size)
    (types : leftType = rightType) (signedness : first.signedness = second.signedness)
    (same : ∀ word, first.lookup? word = second.lookup? word) : first = second := by
  apply eq_of_declared? compiledLeft compiledRight types
  intro word
  refine declared?_eq_of_names (signedness ▸ compiledLeft.uniform) compiledRight.uniform ?_
  rw [← compiledLeft.lookup? sizeLeft, ← compiledRight.lookup? sizeRight, same]

end Compiled

/-- Two compiled descriptors are equal exactly when they agree on name, signedness and all
lookups. So the order of the constants does not matter, nor do repeated values after the first:
what is declared first for each word fixes the descriptor and the Go section written for it. -/
theorem compile_eq_iff {leftType rightType : String} {left right : List Record}
    {first second : Descriptor} (compiledLeft : (compile leftType left).outcome = .ok first)
    (compiledRight : (compile rightType right).outcome = .ok second)
    (sizeLeft : left.length < UInt64.size) (sizeRight : right.length < UInt64.size) :
    (first = second ↔ leftType = rightType ∧ first.signedness = second.signedness ∧
        ∀ word, first.lookup? word = second.lookup? word) ∧
      (leftType = rightType →
        (∀ word, left.find? (·.value == word) = right.find? (·.value == word)) →
        first = second ∧ ∀ sink, Go.writeSection first sink = Go.writeSection second sink) := by
  have l := compile_eq_ok_iff.mp compiledLeft
  have r := compile_eq_ok_iff.mp compiledRight
  refine ⟨⟨?_, ?_⟩, ?_⟩
  · intro same
    exact ⟨l.typeName_eq.symm.trans ((congrArg typeName same).trans r.typeName_eq),
      congrArg signedness same, fun word => congrArg (lookup? · word) same⟩
  · rintro ⟨types, signedness, same⟩
    exact l.eq_of_lookup? r sizeLeft sizeRight types signedness same
  · intro types same
    have equal := l.eq_of_declared? r types same
    exact ⟨equal, fun sink => by rw [equal]⟩

/-- The same constants in another order, with a later one for a value that is already named. -/
theorem compile_eq_iff_reordered : ∃ first second,
    (compile "Level" [⟨"high", 0x7fffffffffffffff, .signed⟩, ⟨"low", 0x8000000000000000, .signed⟩,
      ⟨"minus", 0xffffffffffffffff, .signed⟩]).outcome = .ok first ∧
    (compile "Level" [⟨"minus", 0xffffffffffffffff, .signed⟩, ⟨"low", 0x8000000000000000, .signed⟩,
      ⟨"lowest", 0x8000000000000000, .signed⟩, ⟨"high", 0x7fffffffffffffff, .signed⟩]).outcome =
      .ok second ∧
    first = second ∧ (∀ sink, Go.writeSection first sink = Go.writeSection second sink) ∧
    ∀ word, first.lookup? word = second.lookup? word := by
  obtain ⟨first, compiledFirst⟩ : ∃ first, (compile "Level" [⟨"high", 0x7fffffffffffffff, .signed⟩,
      ⟨"low", 0x8000000000000000, .signed⟩, ⟨"minus", 0xffffffffffffffff, .signed⟩]).outcome =
      .ok first := ⟨_, by cbv⟩
  obtain ⟨second, compiledSecond⟩ : ∃ second,
      (compile "Level" [⟨"minus", 0xffffffffffffffff, .signed⟩,
      ⟨"low", 0x8000000000000000, .signed⟩, ⟨"lowest", 0x8000000000000000, .signed⟩,
      ⟨"high", 0x7fffffffffffffff, .signed⟩]).outcome = .ok second := ⟨_, by cbv⟩
  obtain ⟨determined, reordered⟩ :=
    compile_eq_iff compiledFirst compiledSecond (by decide) (by decide)
  obtain ⟨same, written⟩ := reordered rfl fun word => by
    simp only [List.find?_cons]
    grind
  exact ⟨first, second, compiledFirst, compiledSecond, same, written, (determined.mp same).2.2⟩

end EnumNames.Descriptor
