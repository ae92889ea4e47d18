import EnumNames.Proofs.Lookup

/-! What compiling reports. Every constant is either kept in a run or reported as a repetition of
the first constant with its value, and nothing is reported for constants that are refused. -/
namespace EnumNames

namespace Record

/-- Each record that repeats a value, behind the one that is kept for it. -/
def repeated (records : List Record) : List (Record × Record) :=
  (byValue records).flatMap fun
    | [] => []
    | kept :: others => others.map (kept, ·)

theorem repeats_eq (typeName : String) (records : List Record) :
    repeats typeName records = (repeated records).map fun pair =>
      .duplicate typeName pair.1.name pair.2.name pair.2.value := by
  rw [repeats, repeated, List.map_flatMap]
  refine congrArg (List.flatMap · _) (funext fun group => ?_)
  cases group with
  | nil => rfl
  | cons kept others => rw [List.map_map]; rfl

theorem map_snd_repeated (records : List Record) :
    (repeated records).map Prod.snd = (byValue records).flatMap List.tail := by
  rw [repeated, List.map_flatMap]
  refine congrArg (List.flatMap · _) (funext fun group => ?_)
  cases group with
  | nil => rfl
  | cons kept others => simp

/-- The first of each group and the others make up all groups. -/
theorem perm_heads_append_tails (groups : List (List Record)) :
    (groups.filterMap List.head? ++ groups.flatMap List.tail).Perm groups.flatten := by
  induction groups with
  | nil => exact .nil
  | cons group groups ih =>
    cases group with
    | nil => exact ih
    | cons first others =>
      simp only [List.filterMap_cons, List.head?_cons, List.flatMap_cons, List.tail_cons,
        List.flatten_cons, List.cons_append]
      exact .cons first ((List.perm_append_comm_assoc _ _ _).trans (ih.append_left others))

/-- Where each group holds one value and no two the same, leaving out the first of each group leaves
out the first record of each value. -/
theorem filter_tails {groups : List (List Record)}
    (equal : ∀ group ∈ groups, ∀ left ∈ group, ∀ right ∈ group, left.value = right.value)
    (nodup : ((groups.filterMap List.head?).map Record.value).Nodup) (word : UInt64) :
    (groups.flatMap List.tail).filter (·.value == word) =
      (groups.flatten.filter (·.value == word)).tail := by
  induction groups with
  | nil => rfl
  | cons group groups ih =>
    have equalRest : ∀ other ∈ groups, ∀ left ∈ other, ∀ right ∈ other, left.value = right.value :=
      fun other member => equal other (List.mem_cons_of_mem _ member)
    cases group with
    | nil => exact ih equalRest nodup
    | cons first others =>
      obtain ⟨fresh, nodup⟩ := List.nodup_cons.mp nodup
      have rest := ih equalRest nodup
      have same := equal _ List.mem_cons_self first List.mem_cons_self
      simp only [List.flatMap_cons, List.tail_cons, List.flatten_cons, List.filter_append, rest]
      by_cases here : first.value = word
      · subst here
        have whole : others.filter (·.value == first.value) = others :=
          List.filter_eq_self.mpr fun other member => by
            simp [same other (List.mem_cons_of_mem _ member)]
        have none : groups.flatten.filter (·.value == first.value) = [] := by
          refine List.filter_eq_nil_iff.mpr fun record member => ?_
          rw [beq_iff_eq]
          intro hit
          obtain ⟨group, among, inside⟩ := List.mem_flatten.mp member
          obtain ⟨head, tail, rfl⟩ := List.exists_cons_of_ne_nil (List.ne_nil_of_mem inside)
          have value := equalRest _ among head List.mem_cons_self record inside
          exact fresh (List.mem_map.mpr
            ⟨head, List.mem_filterMap.mpr ⟨_, among, rfl⟩, value.trans hit⟩)
        simp [whole, none]
      · have none : others.filter (·.value == word) = [] := by
          refine List.filter_eq_nil_iff.mpr fun other member => ?_
          rw [beq_iff_eq, ← same other (List.mem_cons_of_mem _ member)]
          exact here
        simp [none, here]

theorem sublist_tails (groups : List (List Record)) :
    (groups.flatMap List.tail).Sublist groups.flatten := by
  induction groups with
  | nil => exact .slnil
  | cons group groups ih => exact (List.tail_sublist group).append ih

theorem perm_distinct_append_repeated (records : List Record) :
    (distinct records ++ (repeated records).map Prod.snd).Perm records := by
  rw [distinct, map_snd_repeated]
  refine (perm_heads_append_tails _).trans ?_
  rw [flatten_byValue]
  exact List.mergeSort_perm _ _

section
variable {signedness : Signedness} {records : List Record}
  (uniform : ∀ record ∈ records, record.signedness = signedness)
include uniform

/-- The repetitions of a value are all its records but the first, in order. -/
theorem filter_repeated (word : UInt64) :
    ((repeated records).map Prod.snd).filter (·.value == word) =
      (records.filter (·.value == word)).tail := by
  rw [map_snd_repeated, ← filter_ascending uniform, ← flatten_byValue]
  exact filter_tails (fun _ member _ l _ r => value_of_mem_byValue member l r)
    (ascending_distinct uniform).values_nodup word

theorem pairwise_repeated : ((repeated records).map Prod.snd).Pairwise fun left right =>
    signedness.read left.value ≤ signedness.read right.value := by
  rw [map_snd_repeated]
  refine (ascending_pairwise uniform).sublist ?_
  rw [← flatten_byValue]
  exact sublist_tails _

/-- A repetition stands behind the first declared record with its value. -/
theorem declared?_of_mem_repeated {kept dropped : Record}
    (member : (kept, dropped) ∈ repeated records) :
    declared? records dropped.value = some kept := by
  obtain ⟨group, among, inside⟩ := List.mem_flatMap.mp member
  cases group with
  | nil => cases inside
  | cons first others =>
    obtain ⟨other, later, same⟩ := List.mem_map.mp inside
    cases same
    have value := value_of_mem_byValue among List.mem_cons_self (List.mem_cons_of_mem _ later)
    rw [← declared?_distinct uniform,
      declared?_eq_some_iff (ascending_distinct uniform).values_nodup]
    exact ⟨List.mem_filterMap.mpr ⟨_, among, rfl⟩, value⟩

end

end Record

theorem Width.eq_indexOverflow_of_forLength {length : Nat} {error : Error}
    (failed : forLength length = .error error) : ∃ n, error = .indexOverflow n := by
  unfold forLength at failed
  split at failed
  · cases failed
  split at failed
  · cases failed
  split at failed
  · cases failed
  · cases failed
    exact ⟨length, rfl⟩

theorem NameTable.eq_indexOverflow_of_build {records : List Record} {error : Error}
    (failed : build records = .error error) : ∃ n, error = .indexOverflow n := by
  simp only [build, bind, Except.bind] at failed
  split at failed
  · rename_i narrow
    cases failed
    exact Width.eq_indexOverflow_of_forLength narrow
  · cases failed

namespace SpanTable

theorem eq_indexOverflow_of_offset {position : Nat} {error : Error}
    (failed : offset position = .error error) : ∃ n, error = .indexOverflow n := by
  unfold offset at failed
  split at failed
  · cases failed
  · cases failed
    exact ⟨position, rfl⟩

theorem eq_indexOverflow_of_append {table : String × SpanMap} {record : Record} {error : Error}
    (failed : append table record = .error error) : ∃ n, error = .indexOverflow n := by
  simp only [append, bind, Except.bind] at failed
  split at failed
  · rename_i start
    cases failed
    exact eq_indexOverflow_of_offset start
  split at failed
  · rename_i stop
    cases failed
    exact eq_indexOverflow_of_offset stop
  · cases failed

theorem eq_indexOverflow_of_foldlM {records : List Record} {table : String × SpanMap}
    {error : Error} (failed : records.foldlM append table = .error error) :
    ∃ n, error = .indexOverflow n := by
  induction records generalizing table with
  | nil => cases failed
  | cons record records ih =>
    rw [List.foldlM_cons] at failed
    cases first : append table record with
    | error stopped =>
      rw [first] at failed
      cases failed
      exact eq_indexOverflow_of_append first
    | ok next =>
      rw [first] at failed
      exact ih failed

theorem eq_indexOverflow_of_build {runs : List Run} {error : Error}
    (failed : build runs = .error error) : ∃ n, error = .indexOverflow n := by
  simp only [build, bind, Except.bind] at failed
  split at failed
  · rename_i packing
    cases failed
    exact eq_indexOverflow_of_foldlM packing
  split at failed
  · rename_i narrow
    cases failed
    exact Width.eq_indexOverflow_of_forLength narrow
  · cases failed

end SpanTable

namespace Tables

theorem exists_of_mapM_eq_error {α β ε : Type} {f : α → Except ε β} {inputs : List α} {error : ε}
    (failed : inputs.mapM f = .error error) : ∃ input, f input = .error error := by
  induction inputs with
  | nil => cases failed
  | cons input inputs ih =>
    rw [List.mapM_cons] at failed
    cases first : f input with
    | error stopped =>
      rw [first] at failed
      cases failed
      exact ⟨input, first⟩
    | ok output =>
      cases rest : inputs.mapM f with
      | error stopped =>
        rw [first, rest] at failed
        cases failed
        exact ih rest
      | ok outputs =>
        rw [first, rest] at failed
        cases failed

/-- Nothing but too many bytes of names keeps tables from being laid out. -/
theorem eq_indexOverflow_of_build {strategy : Strategy} {runs : List Run} {error : Error}
    (failed : build strategy runs = .error error) : ∃ n, error = .indexOverflow n := by
  have map_eq_error {α β : Type} {f : α → β} {step : Except Error α}
      (failed : f <$> step = .error error) : step = .error error := by
    cases step with
    | error stopped => exact congrArg _ (Except.error.inj failed)
    | ok result => cases failed
  cases strategy with
  | oneRun | multiRun =>
    obtain ⟨run, failed⟩ := exists_of_mapM_eq_error (map_eq_error failed)
    exact NameTable.eq_indexOverflow_of_build failed
  | sparseMap => exact SpanTable.eq_indexOverflow_of_build (map_eq_error failed)

end Tables

namespace Descriptor

/-- Constants that are refused leave no log, unless their names alone are too long. -/
theorem log_eq_nil_or_indexOverflow {typeName : String} {records : List Record} {error : Error}
    (failed : (compile typeName records).outcome = .error error) :
    (compile typeName records).log = [] ∨ ∃ n, error = .indexOverflow n := by
  simp only [compile, Record.normalize, Run.splitReported, bind, Traced.bind, Traced.ofExcept,
    Traced.report, pure] at failed ⊢
  cases common : Record.commonSignedness typeName records with
  | error refused => exact .inl rfl
  | ok signedness =>
    simp only [common] at failed
    cases built : Tables.build (Strategy.select (Run.split (Record.distinct records)).length)
        (Run.split (Record.distinct records)) with
    | error narrow =>
      rw [built] at failed
      cases failed
      exact .inr (Tables.eq_indexOverflow_of_build built)
    | ok tables =>
      rw [built] at failed
      cases failed

/-- The log of a compilation that succeeds: the repetitions, the runs, and the table. -/
theorem Compiled.log_eq {typeName : String} {records : List Record} {descriptor : Descriptor}
    (compiled : Compiled typeName records descriptor) : (compile typeName records).log =
      Record.repeats typeName records ++ [.split descriptor.runs.length,
        .compiled typeName descriptor.strategy.name descriptor.runs.length
          descriptor.indexWidth.bits] := by
  have common : Record.commonSignedness typeName records = .ok descriptor.signedness :=
    Record.commonSignedness_eq_ok_iff.mpr ⟨compiled.nonempty, compiled.uniform⟩
  have built := compiled.built
  rw [compiled.strategy_eq, compiled.runs_eq] at built
  simp only [compile, Record.normalize, Run.splitReported, bind, Traced.bind, Traced.ofExcept,
    Traced.report, pure, common, built, indexWidth, compiled.strategy_eq, compiled.runs_eq]
  simp

/-- The log of a compilation accounts for every record. Those that are not kept in a run are
reported in ascending order of their values, and for each value in the order of their declaration,
with the first declared record that is found under this value; then follow the number of runs and
the form of the table. Records that are refused for anything but the length of their names are not
reported. -/
theorem log_compile (typeName : String) (records : List Record) :
    (∀ descriptor, (compile typeName records).outcome = .ok descriptor →
      ∃ repeated : List (Record × Record),
        (compile typeName records).log =
          (repeated.map fun (kept, dropped) =>
            .duplicate typeName kept.name dropped.name dropped.value) ++
          [.split descriptor.runs.length, .compiled typeName descriptor.strategy.name
            descriptor.runs.length descriptor.indexWidth.bits] ∧
        ((repeated.map Prod.snd).Pairwise fun left right =>
          descriptor.signedness.read left.value ≤ descriptor.signedness.read right.value) ∧
        (∀ word, (repeated.map Prod.snd).filter (·.value == word) =
          (records.filter (·.value == word)).tail) ∧
        (∀ kept dropped, (kept, dropped) ∈ repeated →
          records.find? (·.value == dropped.value) = some kept ∧
            (records.length < UInt64.size → descriptor.lookup? dropped.value = some kept.name)) ∧
        (descriptor.runs.flatMap Run.records ++ repeated.map Prod.snd).Perm records) ∧
    ∀ error, (compile typeName records).outcome = .error error →
      (compile typeName records).log = [] ∨ ∃ length, error = .indexOverflow length := by
  refine ⟨fun descriptor compiled => ?_, fun error => log_eq_nil_or_indexOverflow⟩
  have compiled := compile_eq_ok_iff.mp compiled
  refine ⟨Record.repeated records, ?_, Record.pairwise_repeated compiled.uniform,
    Record.filter_repeated compiled.uniform, ?_, ?_⟩
  · rw [compiled.log_eq, Record.repeats_eq]
  · intro kept dropped member
    have first := Record.declared?_of_mem_repeated compiled.uniform member
    exact ⟨first, fun size => by rw [compiled.lookup? size, first, Option.map_some]⟩
  · rw [compiled.members_eq]
    exact Record.perm_distinct_append_repeated records

/-- A value that comes three times and a negative one that comes twice, in turn. -/
theorem log_compile_thrice : ∃ (descriptor : Descriptor) (repeated : List (Record × Record)),
    (compile "Level" [⟨"one", 1, .signed⟩, ⟨"minus", 0xffffffffffffffff, .signed⟩,
      ⟨"uno", 1, .signed⟩, ⟨"neg", 0xffffffffffffffff, .signed⟩, ⟨"eins", 1, .signed⟩]).outcome =
      .ok descriptor ∧
    (compile "Level" [⟨"one", 1, .signed⟩, ⟨"minus", 0xffffffffffffffff, .signed⟩,
      ⟨"uno", 1, .signed⟩, ⟨"neg", 0xffffffffffffffff, .signed⟩, ⟨"eins", 1, .signed⟩]).log =
      (repeated.map fun (kept, dropped) =>
        .duplicate "Level" kept.name dropped.name dropped.value) ++
      [.split descriptor.runs.length, .compiled "Level" descriptor.strategy.name
        descriptor.runs.length descriptor.indexWidth.bits] ∧
    (repeated.map Prod.snd).filter (·.value == 1) = [⟨"uno", 1, .signed⟩, ⟨"eins", 1, .signed⟩] ∧
    (∀ kept dropped, (kept, dropped) ∈ repeated →
      descriptor.lookup? dropped.value = some kept.name) ∧
    (compile "Level" []).log = [] := by
  have compiled : (compile "Level" [⟨"one", 1, .signed⟩, ⟨"minus", 0xffffffffffffffff, .signed⟩,
      ⟨"uno", 1, .signed⟩, ⟨"neg", 0xffffffffffffffff, .signed⟩, ⟨"eins", 1, .signed⟩]).outcome =
    .ok ⟨"Level", .signed, .multiRun, [⟨⟨"minus", 0xffffffffffffffff, .signed⟩, []⟩,
      ⟨⟨"one", 1, .signed⟩, []⟩], .perRun [⟨"minus", .w8 [0, 5]⟩, ⟨"one", .w8 [0, 3]⟩]⟩ := by cbv
  obtain ⟨repeated, log, _, dropped, kept, _⟩ := (log_compile _ _).1 _ compiled
  have silent := (log_compile "Level" []).2 (.emptyInput "Level") rfl
  exact ⟨_, repeated, compiled, log, dropped 1,
    fun first later member => (kept first later member).2 (by decide),
    silent.resolve_right (by simp)⟩

end Descriptor
end EnumNames
