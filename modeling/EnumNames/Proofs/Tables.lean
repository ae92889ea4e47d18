import EnumNames.Tables
import EnumNames.Proofs.Bytes
import EnumNames.Proofs.Run

/-! Names packed into texts and found again. A packed table has all names one after the other and
gives back each at its place; a table by value gives back the last name packed for a value. -/
namespace EnumNames
open Record

/-- From behind, the last record with a value is the first. -/
theorem Record.declared?_reverse_of_last {before after : List Record} {record : Record}
    {word : UInt64} (value : record.value = word) (last : ∀ later ∈ after, later.value ≠ word) :
    declared? (before ++ record :: after).reverse word = some record := by
  have none : after.reverse.find? (·.value == word) = none := by simpa using last
  simp [declared?, List.find?_append, none, value]

/-- The names of records one after the other. -/
def Record.joined (records : List Record) : String := String.join (records.map Record.name)

theorem Width.forLength_eq_ok {length : Nat} (fits : length < 0x100000000) :
    ∃ width, Width.forLength length = .ok width := by
  unfold forLength
  split
  · exact ⟨_, rfl⟩
  split
  · exact ⟨_, rfl⟩
  · exact ⟨.w32, if_pos fits⟩

namespace NameTable

/-- Names meet where the concatenation of those in front of them ends. -/
theorem boundaries_eq (names : List String) : boundaries names =
    (List.range (names.length + 1)).map fun k => (String.join (names.take k)).utf8ByteSize := by
  have shifted : ∀ (names : List String) (start : Nat),
      names.scanl (fun offset name => offset + name.utf8ByteSize) start =
        (List.range (names.length + 1)).map fun k =>
          start + (String.join (names.take k)).utf8ByteSize := by
    intro names
    induction names with
    | nil => simp
    | cons name names ih =>
      intro start
      rw [List.scanl_cons, ih, List.length_cons, List.range_succ_eq_map (n := names.length + 1)]
      simp [Function.comp_def, Nat.add_assoc]
  simpa [boundaries] using shifted names 0

theorem getElem?_boundaries (names : List String) (k : Nat) : (boundaries names)[k]? =
    if k ≤ names.length then some (String.join (names.take k)).utf8ByteSize else none := by
  rw [boundaries_eq, List.getElem?_map]
  split
  · rw [List.getElem?_range (by omega)]
    rfl
  · rw [List.getElem?_eq_none (by simp; omega)]
    rfl

theorem le_of_mem_boundaries {names : List String} {offset : Nat}
    (member : offset ∈ boundaries names) : offset ≤ (String.join names).utf8ByteSize := by
  obtain ⟨k, found⟩ := List.mem_iff_getElem?.mp member
  rw [getElem?_boundaries] at found
  split at found
  · cases found
    conv_rhs => rw [← List.take_append_drop k names, String.join_append]
    simp
  · cases found

/-- Joined names are cut apart again by the places where they meet. -/
theorem names_inj {left right : List String} (joined : String.join left = String.join right)
    (meet : boundaries left = boundaries right) : left = right := by
  have general : ∀ (left right : List String) (start : Nat),
      String.join left = String.join right →
      left.scanl (fun offset name => offset + name.utf8ByteSize) start =
        right.scanl (fun offset name => offset + name.utf8ByteSize) start → left = right := by
    intro left
    induction left with
    | nil =>
      intro right start _ meet
      have lengths := congrArg List.length meet
      cases right with
      | nil => rfl
      | cons name right => simp at lengths
    | cons name left ih =>
      intro right start joined meet
      cases right with
      | nil => simpa using congrArg List.length meet
      | cons other right =>
        rw [List.scanl_cons, List.scanl_cons, List.cons.injEq] at meet
        have second := congrArg List.head? meet.2
        simp only [List.head?_scanl, Option.some.injEq] at second
        rw [String.join_cons, String.join_cons] at joined
        obtain ⟨rfl, rest⟩ := Text.append_inj (by omega) joined
        rw [ih right _ rest meet.2]
  exact general left right 0 joined meet

/-- What packing yields: the names joined, and the places where they meet. -/
theorem build_eq_ok {records : List Record} {table : NameTable}
    (built : build records = .ok table) : table.blob = joined records ∧
      Width.forLength (joined records).utf8ByteSize = .ok table.width ∧
      table.offsets.toList = boundaries (records.map Record.name) := by
  simp only [build, bind, Except.bind] at built
  split at built
  · cases built
  · rename_i width chosen
    cases built
    refine ⟨rfl, ?_, ?_⟩
    · simpa [NameTable.width, joined] using chosen
    · apply OffsetTable.toList_pack
      intro offset member
      exact Nat.lt_of_le_of_lt (le_of_mem_boundaries member) (Width.forLength_fits chosen)

theorem build_succeeds {records : List Record}
    (fits : (joined records).utf8ByteSize < 0x100000000) : ∃ table, build records = .ok table := by
  obtain ⟨width, chosen⟩ := Width.forLength_eq_ok fits
  refine ⟨⟨joined records, .pack (boundaries (records.map Record.name)) width⟩, ?_⟩
  simp only [joined] at chosen ⊢
  simp only [build, chosen, bind, Except.bind, pure, Except.pure]

theorem length_offsets {records : List Record} {table : NameTable}
    (built : build records = .ok table) : table.offsets.toList.length = records.length + 1 := by
  obtain ⟨_, _, listed⟩ := build_eq_ok built
  rw [listed, boundaries_eq]
  simp

/-- The name of a member stands between the offset at its place and the next one. -/
theorem between?_build {records : List Record} {table : NameTable}
    (built : build records = .ok table) {place : Nat} {record : Record}
    (found : records[place]? = some record) : ∃ start stop,
      table.offsets.toList[place]? = some start ∧ table.offsets.toList[place + 1]? = some stop ∧
        Text.between? table.blob start stop = some record.name := by
  obtain ⟨blob, _, offsets⟩ := build_eq_ok built
  obtain ⟨bound, _⟩ := List.getElem?_eq_some_iff.mp found
  have names : (records.map Record.name).take (place + 1) =
      (records.map Record.name).take place ++ [record.name] := by
    rw [List.take_add_one, List.getElem?_map, found]
    rfl
  have whole : joined records = String.join ((records.map Record.name).take place) ++
      record.name ++ String.join ((records.map Record.name).drop (place + 1)) := by
    conv_lhs =>
      rw [joined, ← List.take_append_drop (place + 1) (records.map Record.name), names]
    simp [String.join_append, String.append_assoc]
  refine ⟨(String.join ((records.map Record.name).take place)).utf8ByteSize,
    (String.join ((records.map Record.name).take place) ++ record.name).utf8ByteSize, ?_, ?_, ?_⟩
  · rw [offsets, getElem?_boundaries, List.length_map, if_pos (Nat.le_of_lt bound)]
  · rw [offsets, getElem?_boundaries, List.length_map, if_pos (Nat.succ_le_of_lt bound), names]
    simp [String.join_append]
  · rw [blob, whole]
    exact Text.between?_append _ _ _

/-- The name of a member comes back at its place. The index behind it must not wrap. -/
theorem name?_build {records : List Record} {table : NameTable}
    (built : build records = .ok table) (size : records.length < UInt64.size) {index : UInt64}
    {record : Record} (found : records[index.toNat]? = some record) :
    table.name? index = some record.name := by
  obtain ⟨start, stop, first, last, name⟩ := between?_build built found
  obtain ⟨bound, _⟩ := List.getElem?_eq_some_iff.mp found
  have next : (index + 1).toNat = index.toNat + 1 := by
    rw [UInt64.toNat_add, UInt64.toNat_one]
    exact Nat.mod_eq_of_lt (by simp only [UInt64.size] at size; omega)
  simp only [name?, OffsetTable.get?_eq, first, next, last, Option.bind_eq_bind, Option.bind_some,
    name]

end NameTable

namespace SpanTable

/-- What has been packed: the names joined, and for each value the place of its last record. -/
structure Packed (records : List Record) (table : String × SpanMap) : Prop where
  blob : table.1 = joined records
  absent : ∀ {word : UInt64}, table.2.get? word = none → ∀ record ∈ records, record.value ≠ word
  present : ∀ {word : UInt64} {span : Span}, table.2.get? word = some span →
    ∃ before record after, records = before ++ record :: after ∧ record.value = word ∧
      (∀ later ∈ after, later.value ≠ word) ∧
      span.start.toNat = (joined before).utf8ByteSize ∧
      span.stop.toNat = (joined before ++ record.name).utf8ByteSize

theorem packed_nil : Packed [] ("", []) := ⟨rfl, fun _ _ => by simp, fun found => by cases found⟩

theorem toNat_of_offset {position : Nat} {word : UInt32} (fits : offset position = .ok word) :
    word.toNat = position := by
  unfold offset at fits
  split at fits
  · rename_i small
    cases fits
    exact Nat.mod_eq_of_lt small
  · cases fits

theorem joined_append_singleton (records : List Record) (record : Record) :
    joined (records ++ [record]) = joined records ++ record.name := by
  simp [joined, String.join_append]

/-- One more name goes to the end of the text, and its span takes the place of any other. -/
theorem Packed.append {records : List Record} {table next : String × SpanMap} {record : Record}
    (packed : Packed records table) (step : SpanTable.append table record = .ok next) :
    Packed (records ++ [record]) next := by
  obtain ⟨blob, spans⟩ := table
  obtain ⟨same, absent, present⟩ := packed
  dsimp only at same absent present
  subst same
  simp only [SpanTable.append, bind, Except.bind] at step
  split at step
  · cases step
  split at step
  · cases step
  rename_i _ start startFits _ stop stopFits
  cases step
  have startEq := toNat_of_offset startFits
  have stopEq := toNat_of_offset stopFits
  refine ⟨(joined_append_singleton records record).symm, ?_, ?_⟩
  · intro word none other member
    rw [SpanMap.get?_insert] at none
    split at none
    · cases none
    · rename_i different
      rcases List.mem_append.mp member with old | new
      · exact absent none other old
      · rw [List.mem_singleton.mp new]
        exact different
  · intro word span found
    rw [SpanMap.get?_insert] at found
    split at found
    · rename_i same
      cases found
      exact ⟨records, record, [], rfl, same, by simp, startEq, stopEq⟩
    · rename_i different
      obtain ⟨before, old, after, rfl, same, last, starts, stops⟩ := present found
      refine ⟨before, old, after ++ [record], by simp, same, ?_, starts, stops⟩
      intro later member
      rcases List.mem_append.mp member with inside | new
      · exact last later inside
      · rw [List.mem_singleton.mp new]
        exact different

/-- What holds at first and is kept by each step holds of all records in the end. -/
theorem foldlM_append_keeps (holds : List Record → String × SpanMap → Prop)
    (keeps : ∀ {done table record next}, holds done table →
      SpanTable.append table record = .ok next → holds (done ++ [record]) next)
    {done rest : List Record} {table result : String × SpanMap} (first : holds done table)
    (run : rest.foldlM SpanTable.append table = .ok result) : holds (done ++ rest) result := by
  induction rest generalizing done table with
  | nil =>
    cases run
    simpa using first
  | cons record rest ih =>
    rw [List.foldlM_cons] at run
    cases step : SpanTable.append table record with
    | error error => simp [step, bind, Except.bind] at run
    | ok next =>
      rw [step] at run
      have whole := ih (keeps first step) run
      rwa [List.append_assoc] at whole

theorem foldlM_of_build {runs : List Run} {table : SpanTable} (built : build runs = .ok table) :
    (runs.flatMap Run.records).foldlM SpanTable.append ("", []) = .ok (table.blob, table.spans) ∧
      Width.forLength table.blob.utf8ByteSize = .ok table.width := by
  simp only [build, bind, Except.bind] at built
  split at built
  · cases built
  rename_i result run
  split at built
  · cases built
  rename_i width chosen
  cases built
  exact ⟨run, chosen⟩

theorem build_eq_ok {runs : List Run} {table : SpanTable} (built : build runs = .ok table) :
    Packed (runs.flatMap Run.records) (table.blob, table.spans) ∧
      Width.forLength table.blob.utf8ByteSize = .ok table.width := by
  obtain ⟨run, chosen⟩ := foldlM_of_build built
  exact ⟨foldlM_append_keeps Packed Packed.append packed_nil run, chosen⟩

/-- A value is found exactly when a record has it, and the last such record names it. -/
theorem name?_build {runs : List Run} {table : SpanTable} (built : build runs = .ok table)
    (word : UInt64) : table.name? word =
      (declared? (runs.flatMap Run.records).reverse word).map Record.name := by
  obtain ⟨⟨blob, absent, present⟩, _⟩ := build_eq_ok built
  dsimp only at blob absent present
  cases found : table.spans.get? word with
  | none =>
    have none : declared? (runs.flatMap Run.records).reverse word = none :=
      declared?_eq_none_iff.mpr fun record member =>
        absent found record (List.mem_reverse.mp member)
    simp [name?, span?, found, none]
  | some span =>
    obtain ⟨before, record, after, split, same, last, starts, stops⟩ := present found
    have first : declared? (runs.flatMap Run.records).reverse word = some record :=
      split ▸ declared?_reverse_of_last same last
    have whole : table.blob = joined before ++ record.name ++ joined after := by
      rw [blob, split]
      simp [joined, String.join_append, String.append_assoc]
    simp only [name?, span?, found, Option.bind_eq_bind, Option.bind_some, starts, stops, whole,
      first, Option.map_some]
    exact Text.between?_append _ _ _

/-- Where no value comes twice, every record has a span, and its name stands there. -/
theorem span?_of_mem {runs : List Run} {table : SpanTable} (built : build runs = .ok table)
    (nodup : ((runs.flatMap Run.records).map Record.value).Nodup) {record : Record}
    (member : record ∈ runs.flatMap Run.records) : ∃ span, table.span? record.value = some span ∧
      Text.between? table.blob span.start.toNat span.stop.toNat = some record.name := by
  have found : declared? (runs.flatMap Run.records) record.value = some record :=
    (declared?_eq_some_iff nodup).mpr ⟨member, rfl⟩
  have name := name?_build built record.value
  rw [declared?_perm (List.reverse_perm _)
    ((List.reverse_perm _).map Record.value |>.nodup_iff.mpr nodup), found, Option.map_some] at name
  simpa only [name?, Option.bind_eq_bind, Option.bind_eq_some_iff] using name

end SpanTable
end EnumNames
