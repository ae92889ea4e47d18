import EnumNames.Proofs.Declarations
import EnumNames.Proofs.Go.Method

/-! Types of less than 64 bits. What is written for a descriptor does not depend on the width of
the type, but the receiver counts in it. It agrees with the descriptor exactly if the type can count
the members of every run, or if nothing is counted because there is a map. -/
namespace EnumNames

namespace Go

section Sizes
variable {type : IntType} {descriptor : Descriptor} {run : Run}

/-- Every member of a run takes a value of the type. -/
theorem IntType.Covers.size_le (covers : type.Covers descriptor) (member : run ∈ descriptor.runs)
    (consecutive : run.Consecutive descriptor.signedness) : (run.size : Int) ≤ 2 * type.half := by
  have least := IntType.holds_iff.mp (covers.holds_min member)
  have most := IntType.holds_iff.mp (covers.holds_max member)
  rw [consecutive.read_max, IntType.greatest] at most
  omega

/-- An unsigned type counts the members of each of several runs, since another run has a value. -/
theorem holds_size_of_apart (covers : type.Covers descriptor) (unsigned : type.least = 0)
    (consecutive : ∀ run ∈ descriptor.runs, run.Consecutive descriptor.signedness)
    (ascending : Record.Ascending descriptor.signedness (descriptor.runs.flatMap Run.records))
    {before after : List Run} (runs : descriptor.runs = before ++ run :: after) {other : Run}
    (apart : other ∈ before ++ after) : type.holds run.size := by
  have member : run ∈ descriptor.runs := by simp [runs]
  have otherMember : other ∈ descriptor.runs := by
    rw [runs]
    exact List.perm_middle.mem_iff.mpr (List.mem_cons_of_mem _ apart)
  by_contra full
  -- A run of all values would have the first value of the other run as well.
  have size := mt IntType.holds_nat.mpr full
  have start := IntType.holds_iff.mp (covers.holds_min member)
  have stop := IntType.holds_iff.mp (covers.holds_max member)
  have value := IntType.holds_iff.mp (covers.holds_min otherMember)
  rw [(consecutive run member).read_max, IntType.greatest] at stop
  rw [IntType.greatest] at size value
  rcases (consecutive run member).declared?_cases other.min with
    ⟨_, record, found, first, _⟩ | ⟨_, beyond⟩
  · exact Run.value_ne_of_apart (runs ▸ ascending) apart (List.mem_of_getElem? found)
      List.mem_cons_self (Record.declared?_value first)
  · omega

end Sizes

section Panic
variable {scope : Scope Value} {type : IntType} {descriptor : Descriptor} {run : Run}

/-- No name is found where the place behind the receiver wraps around. -/
theorem evaluate_nameAtReceiver_panic {place start : Nat}
    (held : scope "i" = some (.data (.int (some type) place))) {blob offsets : String}
    {bytes : ByteArray} {element : IntType} {elements : List Nat}
    (named : scope blob = some (.data (.text bytes)))
    (listed : scope offsets = some (.data (.array element elements)))
    (found : elements[place]? = some start) (wraps : type.wrap (place + 1) < 0) :
    evaluate scope (nameAtReceiver blob offsets) = .error .panic := by
  have advanced : Value.join .add (.int (some type) place) (.int none 1) =
      .ok (.int (some type) (type.wrap (place + 1))) := rfl
  have outside : Value.select (.array element elements)
      (.int (some type) (type.wrap (place + 1))) = .error .panic := if_pos wraps
  simp only [nameAtReceiver, evaluate, named, listed, evaluate_receiver held, bind, Except.bind,
    select_array found, advanced, outside]

/-- The case of a run fails for the member whose place is the greatest value of a signed type. -/
theorem runAll_arm_panic (name : type.name = descriptor.typeName)
    (several : run.others.isEmpty = false) {count place start : Nat} {bytes : ByteArray}
    {element : IntType} {elements : List Nat}
    (named : scope (numbered (blobName type.name) count) = some (.data (.text bytes)))
    (listed : scope (numbered (offsetsName type.name) count) =
      some (.data (.array element elements)))
    (found : elements[place]? = some start) (last : (place : Int) = type.greatest)
    (signed : type.least < 0) {value : Int} (inside : type.holds value)
    (number : value = descriptor.signedness.read run.min + place) :
    runAll Simple.run (scope.declare "i" (.data (.int (some type) value)))
        (arm descriptor run count).body = .error .panic := by
  have other {name : String} (made : IsMade type.name name) (entity : Entity Value) :
      scope.declare "i" entity name = scope name := Scope.declare_of_ne made.ne_receiver
  have distance : value - descriptor.signedness.read run.min = place := by omega
  have fits : type.holds place := IntType.holds_nat.mpr (Int.le_of_eq last)
  have wraps : type.wrap (place + 1) < 0 := by
    rwa [last, IntType.wrap_greatest_add_one]
  have panic := evaluate_nameAtReceiver_panic (Scope.declare_self ..)
    ((other ((isMade_blobName _).numbered count) _).trans named)
    ((other ((isMade_offsetsName _).numbered count) _).trans listed) found wraps
  unfold arm
  rw [several, if_neg Bool.false_ne_true, runAll_shift_append scope descriptor run inside, distance,
    IntType.wrap_of_holds fits, ← name]
  simp only [runAll, Simple.run, runReturn, panic, bind, Except.bind]

/-- The case of the run with the value of the receiver is run, since no case before it holds. -/
theorem runCases_of_mem {before after : List Run} {word : UInt64}
    (consecutive : ∀ other ∈ before ++ run :: after, other.Consecutive descriptor.signedness)
    (held : scope "i" = some (.data (.int (some type) (descriptor.signedness.read word))))
    (absent : ∀ other ∈ before, Record.declared? other.records word = none)
    (present : (Record.declared? run.records word).isSome) (otherwise : Expr) (count : Nat) :
    runCases scope otherwise
        (((before ++ run :: after).zipIdx count).map fun (run, place) => arm descriptor run place) =
      runAll Simple.run scope (arm descriptor run (count + before.length)).body := by
  induction before generalizing count with
  | nil =>
    rw [List.nil_append, List.zipIdx_cons, List.map_cons,
      runCases_cons (consecutive run List.mem_cons_self) held, if_pos present]
    rfl
  | cons first before ih =>
    obtain ⟨own, consecutive⟩ := List.forall_mem_cons.mp consecutive
    obtain ⟨firstAbsent, absent⟩ := List.forall_mem_cons.mp absent
    have step : count + 1 + before.length = count + (first :: before).length := by
      rw [List.length_cons]
      omega
    rw [List.cons_append, List.zipIdx_cons, List.map_cons, runCases_cons own held, firstAbsent,
      Option.isSome_none, if_neg Bool.false_ne_true, ih consecutive absent, step]

/-- What the case of a run reads is declared with the table of the run. -/
theorem exists_loadedScope {tables : List NameTable}
    (built : List.Forall₂ (fun run table => NameTable.build run.records = .ok table)
      descriptor.runs tables) {count : Nat} (found : descriptor.runs[count]? = some run) :
    ∃ table, NameTable.build run.records = .ok table ∧
      loadedScope type descriptor.runs tables (numbered (blobName type.name) count) =
        some (.data (.text table.blob.toByteArray)) ∧
      (run.others.isEmpty = false →
        loadedScope type descriptor.runs tables (numbered (offsetsName type.name) count) =
          some (.data (.array (.element table.width.bits) table.offsets.toList))) := by
  obtain ⟨hasRun, same⟩ := List.getElem?_eq_some_iff.mp found
  have hasTable : count < tables.length := built.length_eq ▸ hasRun
  have packed := built.get hasRun hasTable
  rw [List.get_eq_getElem, List.get_eq_getElem, same] at packed
  have numbering : ((run, tables[count]), count) ∈ (descriptor.runs.zip tables).zipIdx := by
    rw [List.mem_zipIdx_iff_getElem?]
    exact List.getElem?_zip_eq_some.mpr ⟨found, List.getElem?_eq_getElem hasTable⟩
  exact ⟨tables[count], packed, loadedScope_part ((run, tables[count]), count) numbering⟩

/-- A run that a type cannot count has a member whose place is the greatest value of the type. -/
theorem exists_last (full : ¬ type.holds run.size) :
    ∃ (place : Nat) (record : Record), (place : Int) = type.greatest ∧
      run.records[place]? = some record := by
  have size := mt IntType.holds_nat.mpr full
  have positive := (IntType.holds_iff.mp type.holds_zero).2
  have last : (type.greatest.toNat : Int) = type.greatest := Int.toNat_of_nonneg positive
  have bound : type.greatest.toNat < run.records.length := by
    change type.greatest.toNat < run.size
    omega
  exact ⟨_, run.records[type.greatest.toNat], last, List.getElem?_eq_getElem bound⟩

/-- A signed type that cannot count the members of a run has a value at which the method fails. -/
theorem callString_multiRun_panic (covers : type.Covers descriptor) (free : type.name ∉ reserved)
    (signed : type.least = -type.half) (wide : 1 < type.half) {tables : List NameTable}
    (built : List.Forall₂ (fun run table => NameTable.build run.records = .ok table)
      descriptor.runs tables)
    (consecutive : ∀ run ∈ descriptor.runs, run.Consecutive descriptor.signedness)
    (ascending : Record.Ascending descriptor.signedness (descriptor.runs.flatMap Run.records))
    (member : run ∈ descriptor.runs) (full : ¬ type.holds run.size) :
    ∃ word, type.holds (descriptor.signedness.read word) ∧
      callString type (multiRun descriptor tables) (descriptor.signedness.read word) =
        .error .panic := by
  obtain ⟨before, after, runs⟩ := List.append_of_mem member
  obtain ⟨place, record, last, found⟩ := exists_last full
  have among := List.mem_of_getElem? found
  have inside := covers.values run member record among
  have several : run.others.isEmpty = false := by
    have bound := (List.getElem?_eq_some_iff.mp found).1
    rw [Run.records, List.length_cons] at bound
    rw [IntType.greatest] at last
    rw [List.isEmpty_eq_false_iff, ← List.length_pos_iff]
    omega
  have here : descriptor.runs[before.length]? = some run := by
    simp [runs]
  obtain ⟨table, packed, blob, array⟩ := exists_loadedScope built here
  obtain ⟨start, _, first, _⟩ := NameTable.between?_build packed found
  have panic := runAll_arm_panic covers.name several blob (array several) first last (by omega)
    inside ((consecutive run member).counts found)
  have absent : ∀ other ∈ before, Record.declared? other.records record.value = none := by
    intro other earlier
    rw [Record.declared?_eq_none_iff]
    intro twin belongs same
    exact Run.value_ne_of_apart (runs ▸ ascending) (List.mem_append_left _ earlier) among belongs
      same.symm
  have present : (Record.declared? run.records record.value).isSome := by
    rw [Record.declared?, List.find?_isSome]
    exact ⟨record, among, by simp⟩
  have case := runCases_of_mem (runs ▸ consecutive)
    (Scope.declare_self (loadedScope type descriptor.runs tables) "i" (.data (.int (some type)
      (descriptor.signedness.read record.value)))) absent present (fallback descriptor receiver) 0
  rw [Nat.zero_add, panic, ← runs] at case
  refine ⟨record.value, inside, callString_eq_error (load_multiRun covers.name free tables)
    (covers.name ▸ body?_multiRun descriptor tables) ?_⟩
  simp only [runAll, Stmt.run, arms, case, bind, Except.bind]

end Panic

section Agreement
variable {type : IntType} {typeName : String} {records : List Record} {descriptor : Descriptor}
  (compiled : Descriptor.Compiled typeName records descriptor)
include compiled

/-- Where the runs are told apart by cases, there is another run for each. -/
theorem exists_apart (chosen : descriptor.strategy = .multiRun) {run : Run}
    (member : run ∈ descriptor.runs) : ∃ before after other,
      descriptor.runs = before ++ run :: after ∧ other ∈ before ++ after := by
  obtain ⟨before, after, runs⟩ := List.append_of_mem member
  have several : before ++ after ≠ [] := by
    intro none
    obtain ⟨rfl, rfl⟩ := List.append_eq_nil_iff.mp none
    have strategy := compiled.strategy_eq
    rw [chosen, runs] at strategy
    cases strategy
  obtain ⟨other, apart⟩ := List.exists_mem_of_ne_nil _ several
  exact ⟨before, after, other, runs, apart⟩

variable (covers : type.Covers descriptor) (free : type.name ∉ reserved)
include covers free

/-- The cases of several runs agree only if the type counts the members of each. -/
theorem holds_size_of_agrees (wide : 1 < type.half) {tables : List NameTable}
    (built : List.Forall₂ (fun run table => NameTable.build run.records = .ok table)
      descriptor.runs tables) (chosen : descriptor.strategy = .multiRun)
    (agrees : Agrees type descriptor (multiRun descriptor tables)) :
    ∀ run ∈ descriptor.runs, type.holds run.size := by
  intro run member
  rcases type.least_cases with unsigned | signed
  · obtain ⟨before, after, other, runs, apart⟩ := exists_apart compiled chosen member
    exact holds_size_of_apart covers unsigned compiled.consecutive compiled.ascending runs apart
  · by_contra full
    obtain ⟨word, inside, panic⟩ := callString_multiRun_panic covers free signed wide built
      compiled.consecutive compiled.ascending member full
    rw [agrees.2 word inside] at panic
    cases panic

/-- A section agrees with its descriptor exactly if it is a map or its type counts the members of
every run. -/
theorem Written.agrees_iff {items : List Item} (written : Written descriptor items)
    (wide : 1 < type.half) (narrow : type.half ≤ 0x80000000) :
    Agrees type descriptor items ↔
      descriptor.strategy = .sparseMap ∨ ∀ run ∈ descriptor.runs, type.holds run.size := by
  have counted : ∀ run ∈ descriptor.runs, IntType.int.holds run.size := by
    intro run member
    have bound := covers.size_le member (compiled.consecutive run member)
    have greatest : IntType.int.greatest = 0x7fffffffffffffff := by decide
    rw [IntType.holds_nat]
    omega
  constructor
  · intro agrees
    cases written with
    | @oneRun run _ runs built =>
      have member : run ∈ descriptor.runs := runs ▸ List.mem_cons_self
      have accepted := agrees.1
      rw [accepts_oneRun covers member (counted run member) free built] at accepted
      rw [runs, List.forall_mem_singleton]
      exact .inr accepted
    | multiRun built chosen =>
      exact .inr (holds_size_of_agrees compiled covers free wide built chosen agrees)
    | sparseMap _ chosen => exact .inl chosen
  · rintro (map | sizes)
    · cases written with
      | oneRun _ _ chosen => cases chosen.symm.trans map
      | multiRun _ chosen => cases chosen.symm.trans map
      | sparseMap built => exact agrees_sparseMap compiled covers free counted built
    · exact written.agrees compiled ⟨covers, sizes, counted⟩ free

end Agreement

theorem half_narrow (typeName : String) (signedness : Signedness) {bits : Nat}
    (narrow : bits ∈ [8, 16, 32]) :
    1 < (IntType.declared typeName signedness bits).half ∧
      (IntType.declared typeName signedness bits).half ≤ 0x80000000 := by
  have halves : ∀ bits ∈ [8, 16, 32], 1 < 1 <<< (bits - 1) ∧ 1 <<< (bits - 1) ≤ 0x80000000 := by
    decide
  exact halves bits narrow

end Go

namespace Descriptor
open Go Record

/-- Reading the text of a compiled descriptor as Go, with its type defined as integers of less than
64 bits that include its members, gives a program that agrees with the descriptor exactly if the
members are in a map or the type can count the members of every run. -/
theorem agrees_narrow_iff {alphabet : Alphabet} {typeName : String} {records : List Record}
    {descriptor : Descriptor} {bits : Nat} (narrow : bits ∈ [8, 16, 32])
    (compiled : (compile typeName records).outcome = .ok descriptor)
    (named : alphabet.IsName typeName) (free : typeName ∉ reserved)
    (values : ∀ run ∈ descriptor.runs, ∀ record ∈ run.records,
      (IntType.declared typeName descriptor.signedness bits).holds
        (descriptor.signedness.read record.value)) :
    ∃ text items, writeSection descriptor .unbounded = .ok ⟨text, none⟩ ∧
      read? alphabet text = some items ∧
      (Agrees (.declared typeName descriptor.signedness bits) descriptor items ↔
        descriptor.strategy = .sparseMap ∨ ∀ run ∈ descriptor.runs,
          (IntType.declared typeName descriptor.signedness bits).holds run.size) := by
  have holds := compile_eq_ok_iff.mp compiled
  obtain ⟨wide, small⟩ := half_narrow typeName descriptor.signedness narrow
  have nameFree : (IntType.declared typeName descriptor.signedness bits).name ∉ reserved := free
  obtain ⟨text, items, wrote, read, written⟩ := read?_writeSection holds named
  refine ⟨text, _, wrote, read, agrees_normal.trans ?_⟩
  exact written.agrees_iff holds ⟨holds.typeName_eq.symm, rfl, rfl, values⟩ nameFree wide small

/-- Two days around zero in eight bits. -/
theorem agrees_narrow_iff_day : ∃ text items,
    read? ⟨fun _ => false, fun _ => false⟩ text = some items ∧
    accepts (.declared "Day" .signed 8) items ∧
    callString (.declared "Day" .signed 8) items (-1) = .ok "Mon".toByteArray ∧
    callString (.declared "Day" .signed 8) items 127 = .ok "Day(127)".toByteArray := by
  have compiled : (compile "Day" [⟨"Mon", 0xffffffffffffffff, .signed⟩, ⟨"Tue", 0, .signed⟩]).outcome =
      .ok ⟨"Day", .signed, .oneRun, [⟨⟨"Mon", 0xffffffffffffffff, .signed⟩, [⟨"Tue", 0, .signed⟩]⟩],
        .perRun [⟨"MonTue", .w8 [0, 3, 6]⟩]⟩ := by cbv
  obtain ⟨text, items, _, read, agreement⟩ := agrees_narrow_iff (by decide : 8 ∈ [8, 16, 32])
    compiled ⟨isWord_plain (by decide), by decide⟩ (by decide) (by decide)
  obtain ⟨accepted, agrees⟩ := agreement.mpr (.inr (by decide))
  exact ⟨text, items, read, accepted, agrees 0xffffffffffffffff rfl, agrees 127 rfl⟩

/-- Ascending constants that follow one another are the members of one run. -/
theorem Compiled.exists_run {typeName : String} {records : List Record} {descriptor : Descriptor}
    (compiled : Compiled typeName records descriptor)
    (ascends : Ascending descriptor.signedness records)
    (chain : records.IsChain fun left right => right.value = left.value + 1) :
    ∃ run, descriptor.runs = [run] ∧ run.records = records := by
  rw [compiled.runs_eq, distinct_of_ascending compiled.uniform ascends]
  exact Run.split_of_isChain compiled.nonempty chain

/-- Constants that count up from zero. -/
def digits (count : Nat) : List Record :=
  (List.range count).map fun n => ⟨"D" ++ toString n, n.toUInt64, .signed⟩

theorem read_toUInt64 {n : Nat} (small : n < 0x8000000000000000) :
    Signedness.signed.read n.toUInt64 = n := by
  have residue := Signedness.signed.read_emod n.toUInt64
  have lower := Signedness.signed.least_le_read n.toUInt64
  have upper := Signedness.signed.read_lt n.toUInt64
  have word : n.toUInt64.toNat = n := Nat.mod_eq_of_lt (by omega)
  rw [Signedness.least] at lower upper
  omega

theorem ascending_digits {count : Nat} (small : count ≤ 0x8000000000000000) :
    Ascending .signed (digits count) := by
  rw [Ascending, digits, List.pairwise_map]
  refine List.pairwise_lt_range.imp_of_mem ?_
  intro left right l r less
  rw [List.mem_range] at l r
  rw [read_toUInt64 (by omega), read_toUInt64 (by omega)]
  omega

theorem isChain_digits (count : Nat) :
    (digits count).IsChain fun left right => right.value = left.value + 1 := by
  rw [digits, List.isChain_map, List.isChain_iff_getElem]
  intro k bound
  rw [List.getElem_range, List.getElem_range]
  exact UInt64.ofNat_add k 1

/-- A type that has a value for the last of the constants has one for each. -/
theorem holds_digits {type : IntType} {count : Nat} (last : (count : Int) ≤ type.greatest + 1)
    (small : count ≤ 0x8000000000000000) :
    ∀ record ∈ digits count, type.holds (Signedness.signed.read record.value) := by
  intro record member
  obtain ⟨n, bound, rfl⟩ := List.mem_map.mp member
  rw [List.mem_range] at bound
  rw [read_toUInt64 (by omega), IntType.holds_nat]
  omega

/-- A type of eight bits with a name for each of its values from zero on. No value of the type is
the number of the names. -/
theorem not_agrees_digits : ∃ descriptor text items,
    (compile "Digit" (digits 128)).outcome = .ok descriptor ∧
    (∀ run ∈ descriptor.runs, ∀ record ∈ run.records,
      (IntType.declared "Digit" descriptor.signedness 8).holds
        (descriptor.signedness.read record.value)) ∧
    writeSection descriptor .unbounded = .ok ⟨text, none⟩ ∧
    read? ⟨fun _ => false, fun _ => false⟩ text = some items ∧
    ¬ Agrees (.declared "Digit" descriptor.signedness 8) descriptor items := by
  have uniform : ∀ record ∈ digits 128, record.signedness = .signed := by
    simp [digits]
  have common : commonSignedness "Digit" (digits 128) = .ok .signed :=
    commonSignedness_eq_ok_iff.mpr ⟨by simp [digits], uniform⟩
  obtain ⟨descriptor, compiled⟩ := compile_succeeds common (by decide +kernel)
  have holds := compile_eq_ok_iff.mp compiled
  have first : (⟨"D0", 0, .signed⟩ : Record) ∈ digits 128 := List.mem_of_mem_head? rfl
  have signed : Signedness.signed = descriptor.signedness := holds.uniform _ first
  obtain ⟨run, runs, members⟩ :=
    holds.exists_run (signed ▸ ascending_digits (by decide)) (isChain_digits 128)
  obtain ⟨wide, small⟩ := half_narrow "Digit" descriptor.signedness (by decide : 8 ∈ [8, 16, 32])
  have values : ∀ run ∈ descriptor.runs, ∀ record ∈ run.records,
      (IntType.declared "Digit" descriptor.signedness 8).holds
        (descriptor.signedness.read record.value) := by
    rw [runs, ← signed, List.forall_mem_singleton, members]
    exact holds_digits (by decide) (by decide)
  have named : Alphabet.IsName ⟨fun _ => false, fun _ => false⟩ "Digit" :=
    ⟨isWord_plain (by decide), by decide⟩
  obtain ⟨text, items, wrote, read, written⟩ := read?_writeSection holds named
  refine ⟨descriptor, text, _, compiled, values, wrote, read, ?_⟩
  rw [agrees_normal, written.agrees_iff holds ⟨holds.typeName_eq.symm, rfl, rfl, values⟩
    (by decide : "Digit" ∉ reserved) wide small, runs, ← signed, List.forall_mem_singleton]
  rintro (map | counted)
  · have strategy := holds.strategy_eq
    rw [map, runs] at strategy
    cases strategy
  · rw [Run.size, members, digits, List.length_map, List.length_range] at counted
    cases counted

end Descriptor
end EnumNames
