import EnumNames.Proofs.Lookup
import EnumNames.Proofs.Partition

/-! The number of runs, and with it the strategy, as a property of a set of integers. Each run begins
with an integer whose predecessor is missing, so neither the order of the constants nor their names
nor repeated values count. -/
namespace EnumNames
open Record

/-- The integers that records stand for. -/
def Record.numbers (records : List Record) : Finset Int := (records.map number).toFinset

/-- The integers of a set whose predecessor is not in it. -/
def Record.starts (numbers : Finset Int) : Finset Int := numbers.filter fun n => n - 1 ∉ numbers

namespace Record

theorem mem_numbers {records : List Record} {n : Int} :
    n ∈ numbers records ↔ ∃ record ∈ records, record.number = n := by
  simp [numbers]

/-- An interval has its least integer as the only start. -/
theorem starts_Icc {low high : Int} (nonempty : low ≤ high) : starts (Finset.Icc low high) = {low} := by
  ext n
  simp only [starts, Finset.mem_filter, Finset.mem_Icc, Finset.mem_singleton]
  omega

theorem numbers_distinct {signedness : Signedness} {records : List Record}
    (uniform : ∀ record ∈ records, record.signedness = signedness) :
    numbers (distinct records) = numbers records := by
  ext n
  rw [mem_numbers, mem_numbers]
  constructor
  · rintro ⟨record, member, rfl⟩
    exact ⟨record, mem_of_mem_distinct member, rfl⟩
  · rintro ⟨record, member, rfl⟩
    have kept := declared?_distinct uniform record.value
    cases found : declared? records record.value with
    | none => exact absurd rfl (declared?_eq_none_iff.mp found record member)
    | some first =>
      rw [found] at kept
      refine ⟨first, declared?_mem kept, ?_⟩
      rw [number, number, uniform first (declared?_mem found), uniform record member,
        declared?_value found]

end Record

namespace Strategy

theorem select_eq_oneRun_iff {runs : Nat} : select runs = .oneRun ↔ runs ≤ 1 := by
  grind [select]

theorem select_eq_multiRun_iff {runs : Nat} : select runs = .multiRun ↔ 2 ≤ runs ∧ runs ≤ 10 := by
  grind [select, maxTestedRuns]

theorem select_eq_sparseMap_iff {runs : Nat} : select runs = .sparseMap ↔ 11 ≤ runs := by
  grind [select, maxTestedRuns]

end Strategy

namespace Run
variable {signedness : Signedness}

/-- The integers of a run lie below those of another, and not next to them. -/
def Apart (signedness : Signedness) (left right : Run) : Prop :=
  ∀ l ∈ left.records, ∀ r ∈ right.records,
    signedness.read l.value + 1 < signedness.read r.value

instance : Trans (Apart signedness) (Apart signedness) (Apart signedness) where
  trans {_ middle _} first second l left r right := by
    have below := first l left middle.first List.mem_cons_self
    have above := second middle.first List.mem_cons_self r right
    omega

theorem Consecutive.exists_of_bounds {run : Run} (consecutive : run.Consecutive signedness) {n : Int}
    (lower : signedness.read run.min ≤ n) (upper : n ≤ signedness.read run.max) :
    ∃ record ∈ run.records, signedness.read record.value = n := by
  have last := consecutive.read_max
  have positive : 0 < run.size := Nat.succ_pos _
  have bound : (n - signedness.read run.min).toNat < run.records.length := by
    change _ < run.size
    omega
  refine ⟨_, List.getElem_mem bound, ?_⟩
  rw [consecutive.counts (List.getElem?_eq_getElem bound)]
  omega

/-- The integers of a run are an interval. -/
theorem Consecutive.numbers_eq {run : Run} (consecutive : run.Consecutive signedness) :
    numbers run.records = Finset.Icc (signedness.read run.min) (signedness.read run.max) := by
  ext n
  rw [mem_numbers, Finset.mem_Icc]
  constructor
  · rintro ⟨record, member, rfl⟩
    rw [number, consecutive.uniform record member]
    exact consecutive.bounds member
  · rintro ⟨lower, upper⟩
    obtain ⟨record, member, same⟩ := consecutive.exists_of_bounds lower upper
    exact ⟨record, member, by rw [number, consecutive.uniform record member, same]⟩

section
variable {records : List Record} (uniform : ∀ record ∈ records, record.signedness = signedness)
include uniform

theorem pairwise_apart (ascends : Ascending signedness records) :
    (split records).Pairwise (Apart signedness) := by
  rw [← List.isChain_iff_pairwise, List.isChain_iff_getElem]
  intro i bound l left r right
  have gap := List.isChain_iff_getElem.mp (isChain_apart ascends) i bound
  have upper := ((consecutive_of_mem uniform ascends (List.getElem_mem _)).bounds left).2
  have lower := ((consecutive_of_mem uniform ascends (List.getElem_mem _)).bounds right).1
  omega

/-- The predecessor of the first integer of a run is missing. -/
theorem read_ne_before (ascends : Ascending signedness records) {run other : Run}
    (member : run ∈ split records) (otherMember : other ∈ split records) {record : Record}
    (inside : record ∈ other.records) :
    signedness.read record.value ≠ signedness.read run.min - 1 := by
  have own : ∀ run ∈ split records, ∀ record ∈ run.records,
      signedness.read record.value ≠ signedness.read run.min - 1 := by
    intro run member record inside
    have lower := ((consecutive_of_mem uniform ascends member).bounds inside).1
    omega
  have below {run other : Run} (apart : Apart signedness run other) : ∀ record ∈ other.records,
      signedness.read record.value ≠ signedness.read run.min - 1 := by
    intro record inside
    have gap := apart run.first List.mem_cons_self record inside
    rw [Run.min]
    omega
  have above {run other : Run} (apart : Apart signedness other run) : ∀ record ∈ other.records,
      signedness.read record.value ≠ signedness.read run.min - 1 := by
    intro record inside
    have gap := apart record inside run.first List.mem_cons_self
    rw [Run.min]
    omega
  have apart := pairwise_apart uniform ascends
  exact List.Pairwise.forall_of_forall_of_flip own (apart.imp below) (apart.imp above) member
    otherMember record inside

/-- The integers of records are those of their runs. -/
theorem mem_numbers_iff_split {n : Int} : n ∈ numbers records ↔
    ∃ run ∈ split records, ∃ record ∈ run.records, signedness.read record.value = n := by
  rw [mem_numbers]
  constructor
  · rintro ⟨record, member, rfl⟩
    obtain ⟨run, among, inside⟩ :=
      List.mem_flatMap.mp ((flatMap_records_split records).symm ▸ member)
    exact ⟨run, among, record, inside, by rw [number, uniform record member]⟩
  · rintro ⟨run, among, record, inside, rfl⟩
    have member : record ∈ records := (records_sublist among).subset inside
    exact ⟨record, member, by rw [number, uniform record member]⟩

/-- An integer is a start exactly if a run begins with it. -/
theorem mem_starts_iff (ascends : Ascending signedness records) {n : Int} :
    n ∈ starts (numbers records) ↔ ∃ run ∈ split records, signedness.read run.min = n := by
  rw [starts, Finset.mem_filter, mem_numbers_iff_split uniform, mem_numbers_iff_split uniform]
  constructor
  · rintro ⟨⟨run, among, record, inside, rfl⟩, missing⟩
    have consecutive := consecutive_of_mem uniform ascends among
    refine ⟨run, among, ?_⟩
    -- A record that does not begin its run has the integer before it in the same run.
    by_contra different
    obtain ⟨lower, upper⟩ := consecutive.bounds inside
    obtain ⟨before, there, same⟩ := consecutive.exists_of_bounds
      (n := signedness.read record.value - 1) (by omega) (by omega)
    exact missing ⟨run, among, before, there, same⟩
  · rintro ⟨run, among, rfl⟩
    refine ⟨⟨run, among, run.first, List.mem_cons_self, rfl⟩, ?_⟩
    rintro ⟨other, otherAmong, record, inside, same⟩
    exact read_ne_before uniform ascends among otherAmong inside same

theorem length_split_eq (ascends : Ascending signedness records) :
    (split records).length = (starts (numbers records)).card := by
  have nodup : ((split records).map fun run => signedness.read run.min).Nodup := by
    refine List.pairwise_map.mpr ((pairwise_apart uniform ascends).imp fun below => ?_)
    have := below _ List.mem_cons_self _ List.mem_cons_self
    simp only [Run.min]
    omega
  have same : ((split records).map fun run => signedness.read run.min).toFinset =
      starts (numbers records) := by
    ext n
    rw [mem_starts_iff uniform ascends]
    simp
  rw [← same, List.toFinset_card_of_nodup nodup, List.length_map]

end

end Run

namespace Descriptor

namespace Compiled
variable {typeName : String} {records : List Record} {descriptor : Descriptor}
  (compiled : Compiled typeName records descriptor)
include compiled

theorem length_runs : descriptor.runs.length = (starts (numbers records)).card := by
  have uniform : ∀ record ∈ distinct records, record.signedness = descriptor.signedness :=
    fun record member => compiled.uniform record (mem_of_mem_distinct member)
  rw [compiled.runs_eq, Run.length_split_eq uniform (ascending_distinct compiled.uniform),
    numbers_distinct compiled.uniform]

/-- There is a single run exactly if no integer is missing between the least and the greatest. -/
theorem length_runs_le_one_iff :
    descriptor.runs.length ≤ 1 ↔ ∃ low high, numbers records = Finset.Icc low high := by
  constructor
  · intro atMost
    cases runs : descriptor.runs with
    | nil => exact absurd runs compiled.runs_ne_nil
    | cons run others =>
      have single : others = [] := by
        rw [runs, List.length_cons] at atMost
        exact List.eq_nil_of_length_eq_zero (by omega)
      have members := compiled.members_eq
      rw [runs, single, List.flatMap_singleton] at members
      have whole := (compiled.consecutive run (runs ▸ List.mem_cons_self)).numbers_eq
      rw [members, numbers_distinct compiled.uniform] at whole
      exact ⟨_, _, whole⟩
  · rintro ⟨low, high, interval⟩
    obtain ⟨record, member⟩ := List.exists_mem_of_ne_nil _ compiled.nonempty
    have inside : record.number ∈ numbers records := mem_numbers.mpr ⟨record, member, rfl⟩
    rw [interval, Finset.mem_Icc] at inside
    rw [compiled.length_runs, interval, starts_Icc (by omega), Finset.card_singleton]

end Compiled

/-- The set of integers that the constants stand for decides on the number of runs and on the
strategy, whatever the order, the names and the repeated values. -/
theorem strategy_compile {typeName : String} {records : List Record} {descriptor : Descriptor}
    (compiled : (compile typeName records).outcome = .ok descriptor) :
    (∀ record ∈ records, record.signedness = descriptor.signedness) ∧
      descriptor.runs.length = (starts (numbers records)).card ∧
      (descriptor.strategy = .oneRun ↔ ∃ low high, numbers records = Finset.Icc low high) ∧
      (descriptor.strategy = .multiRun ↔
        2 ≤ (starts (numbers records)).card ∧ (starts (numbers records)).card ≤ 10) ∧
      (descriptor.strategy = .sparseMap ↔ 11 ≤ (starts (numbers records)).card) ∧
      ∀ otherType others other, (compile otherType others).outcome = .ok other →
        numbers others = numbers records →
        other.runs.length = descriptor.runs.length ∧ other.strategy = descriptor.strategy := by
  have holds := compile_eq_ok_iff.mp compiled
  have count := holds.length_runs
  refine ⟨holds.uniform, count, ?_, ?_, ?_, ?_⟩
  · rw [holds.strategy_eq, Strategy.select_eq_oneRun_iff, holds.length_runs_le_one_iff]
  · rw [holds.strategy_eq, Strategy.select_eq_multiRun_iff, count]
  · rw [holds.strategy_eq, Strategy.select_eq_sparseMap_iff, count]
  · intro otherType others other otherCompiled same
    have otherHolds := compile_eq_ok_iff.mp otherCompiled
    have lengths : other.runs.length = descriptor.runs.length := by
      rw [otherHolds.length_runs, count, same]
    exact ⟨lengths, by rw [otherHolds.strategy_eq, holds.strategy_eq, lengths]⟩

/-- Two integers at the ends of the range and two around zero make three runs, in whatever order
and with whatever names they come. -/
theorem strategy_compile_extremes : ∃ descriptor other,
    (compile "Level" [⟨"high", 0x7fffffffffffffff, .signed⟩, ⟨"low", 0x8000000000000000, .signed⟩,
      ⟨"nul", 0, .signed⟩, ⟨"minus", 0xffffffffffffffff, .signed⟩]).outcome = .ok descriptor ∧
    (compile "Kind" [⟨"zero", 0, .signed⟩, ⟨"least", 0x8000000000000000, .signed⟩,
      ⟨"minus", 0xffffffffffffffff, .signed⟩, ⟨"none", 0, .signed⟩,
      ⟨"most", 0x7fffffffffffffff, .signed⟩]).outcome = .ok other ∧
    descriptor.runs.length = 3 ∧ descriptor.strategy = .multiRun ∧
    other.runs.length = 3 ∧ other.strategy = .multiRun := by
  obtain ⟨descriptor, compiled⟩ : ∃ descriptor, (compile "Level"
      [⟨"high", 0x7fffffffffffffff, .signed⟩, ⟨"low", 0x8000000000000000, .signed⟩,
        ⟨"nul", 0, .signed⟩, ⟨"minus", 0xffffffffffffffff, .signed⟩]).outcome = .ok descriptor :=
    ⟨_, by cbv⟩
  obtain ⟨other, otherCompiled⟩ : ∃ descriptor, (compile "Kind"
      [⟨"zero", 0, .signed⟩, ⟨"least", 0x8000000000000000, .signed⟩,
        ⟨"minus", 0xffffffffffffffff, .signed⟩, ⟨"none", 0, .signed⟩,
        ⟨"most", 0x7fffffffffffffff, .signed⟩]).outcome = .ok descriptor := ⟨_, by cbv⟩
  obtain ⟨_, count, _, multiRun, _, same⟩ := strategy_compile compiled
  have starts : (starts (numbers [⟨"high", 0x7fffffffffffffff, .signed⟩,
      ⟨"low", 0x8000000000000000, .signed⟩, ⟨"nul", 0, .signed⟩,
      ⟨"minus", 0xffffffffffffffff, .signed⟩])).card = 3 := by decide +kernel
  have three : descriptor.runs.length = 3 := count.trans starts
  have shape : descriptor.strategy = .multiRun := multiRun.mpr (by omega)
  obtain ⟨length, strategy⟩ := same _ _ _ otherCompiled (by decide +kernel)
  exact ⟨descriptor, other, compiled, otherCompiled, three, shape, length.trans three,
    strategy.trans shape⟩

end Descriptor
end EnumNames
