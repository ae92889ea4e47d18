import EnumNames.Proofs.Lookup

/-! The strategy is only a layout. The tables of every strategy can be built from any runs whose
names are short enough together, and all of them give the same answers. -/
namespace EnumNames
open Record

namespace Record

/-- The names take as many bytes together as one by one. -/
theorem utf8ByteSize_joined (records : List Record) : (joined records).utf8ByteSize =
    (records.map fun record => record.name.utf8ByteSize).sum := by
  induction records with
  | nil => rfl
  | cons record records ih =>
    have first : joined (record :: records) = record.name ++ joined records := by
      rw [joined, List.map_cons, String.join_cons, joined]
    rw [first, String.utf8ByteSize_append, ih, List.map_cons, List.sum_cons]

/-- Leaving records out makes the names no longer. -/
theorem utf8ByteSize_joined_le {part records : List Record} (sublist : part.Sublist records) :
    (joined part).utf8ByteSize ≤ (joined records).utf8ByteSize := by
  rw [utf8ByteSize_joined, utf8ByteSize_joined]
  exact (sublist.map _).sum_le_sum fun _ _ => Nat.zero_le _

theorem utf8ByteSize_joined_perm {records others : List Record} (perm : records.Perm others) :
    (joined records).utf8ByteSize = (joined others).utf8ByteSize := by
  rw [utf8ByteSize_joined, utf8ByteSize_joined]
  exact (perm.map _).sum_eq

end Record

namespace SpanTable

theorem offset_eq_ok {position : Nat} (fits : position < 0x100000000) :
    offset position = .ok position.toUInt32 := if_pos fits

/-- One name after the other fits as long as all of them together do. -/
theorem foldlM_append_succeeds (rest : List Record) (table : String × SpanMap)
    (fits : (table.1 ++ joined rest).utf8ByteSize < 0x100000000) :
    ∃ result, rest.foldlM append table = .ok result ∧ result.1 = table.1 ++ joined rest := by
  induction rest generalizing table with
  | nil => exact ⟨table, rfl, by simp [joined]⟩
  | cons record rest ih =>
    have whole : table.1 ++ joined (record :: rest) = table.1 ++ record.name ++ joined rest := by
      simp [joined, String.append_assoc]
    rw [whole] at fits ⊢
    have stop : (table.1 ++ record.name).utf8ByteSize < 0x100000000 := by
      rw [String.utf8ByteSize_append] at fits
      omega
    have start : table.1.utf8ByteSize < 0x100000000 := by
      rw [String.utf8ByteSize_append] at stop
      omega
    have step : append table record = .ok (table.1 ++ record.name, table.2.insert record.value
        ⟨table.1.utf8ByteSize.toUInt32, (table.1 ++ record.name).utf8ByteSize.toUInt32⟩) := by
      simp only [append, offset_eq_ok start, offset_eq_ok stop, bind, Except.bind, pure, Except.pure]
    rw [List.foldlM_cons, step]
    exact ih _ fits

theorem build_succeeds {runs : List Run}
    (fits : (joined (runs.flatMap Run.records)).utf8ByteSize < 0x100000000) :
    ∃ table, build runs = .ok table := by
  obtain ⟨result, packed, blob⟩ :=
    foldlM_append_succeeds (runs.flatMap Run.records) ("", []) (by simpa using fits)
  rw [String.empty_append] at blob
  obtain ⟨width, chosen⟩ := Width.forLength_eq_ok fits
  rw [← blob] at chosen
  exact ⟨⟨result.1, width, result.2⟩, by
    simp only [build, packed, chosen, bind, Except.bind, pure, Except.pure]⟩

end SpanTable

namespace Tables

theorem exists_mapM_ok {α β ε : Type} {f : α → Except ε β} {inputs : List α}
    (each : ∀ input ∈ inputs, ∃ output, f input = .ok output) :
    ∃ outputs, inputs.mapM f = .ok outputs := by
  induction inputs with
  | nil => exact ⟨[], rfl⟩
  | cons input inputs ih =>
    obtain ⟨output, first⟩ := each input List.mem_cons_self
    obtain ⟨outputs, rest⟩ := ih fun other member => each other (List.mem_cons_of_mem _ member)
    exact ⟨output :: outputs, by
      simp only [List.mapM_cons, first, rest, bind, Except.bind, pure, Except.pure]⟩

/-- Every strategy can lay out any runs whose names fit. -/
theorem build_succeeds (strategy : Strategy) {runs : List Run}
    (fits : (joined (runs.flatMap Run.records)).utf8ByteSize < 0x100000000) :
    ∃ tables, build strategy runs = .ok tables := by
  have perRun : ∃ parts, runs.mapM (fun run => NameTable.build run.records) = .ok parts := by
    apply exists_mapM_ok
    intro run member
    have part : run.records.Sublist (runs.flatMap Run.records) :=
      List.sublist_flatten_of_mem (List.mem_map_of_mem member)
    exact NameTable.build_succeeds ((utf8ByteSize_joined_le part).trans_lt fits)
  cases strategy with
  | oneRun | multiRun =>
    obtain ⟨parts, built⟩ := perRun
    exact ⟨.perRun parts, by simp only [build, built, Functor.map, Except.map]⟩
  | sparseMap =>
    obtain ⟨part, built⟩ := SpanTable.build_succeeds fits
    exact ⟨.sparse part, by simp only [build, built, Functor.map, Except.map]⟩

/-- Normalized records fall into runs that every strategy can lay out, however many there are, and
whatever the layout, a word has the name of the record with this value. -/
theorem lookup?_build_eq {typeName : String} {records members : List Record}
    (normal : (normalize typeName records).outcome = .ok members)
    (size : members.length < UInt64.size)
    (bytes : (joined members).utf8ByteSize < 0x100000000) (strategy other : Strategy) :
    ∃ tables others, build strategy (Run.split members) = .ok tables ∧
      build other (Run.split members) = .ok others ∧
      ∀ word, lookup? (Run.split members) tables word = lookup? (Run.split members) others word ∧
        lookup? (Run.split members) tables word =
          (members.find? (·.value == word)).map Record.name := by
  obtain ⟨⟨signedness, common⟩, rfl⟩ := normalize_eq_ok_iff.mp normal
  obtain ⟨_, uniform⟩ := commonSignedness_eq_ok_iff.mp common
  have ascends := ascending_distinct uniform
  have whole := Run.flatMap_records_split (distinct records)
  rw [← whole] at bytes
  obtain ⟨tables, built⟩ := build_succeeds strategy bytes
  obtain ⟨others, otherBuilt⟩ := build_succeeds other bytes
  have consecutive : ∀ run ∈ Run.split (distinct records), run.Consecutive signedness :=
    fun run member => Run.consecutive_of_mem
      (fun record inside => uniform record (mem_of_mem_distinct inside)) ascends member
  have small : ∀ run ∈ Run.split (distinct records), run.size < UInt64.size :=
    fun run member => (Run.records_sublist member).length_le.trans_lt size
  have answers {strategy : Strategy} {tables : Tables}
      (built : build strategy (Run.split (distinct records)) = .ok tables) (word : UInt64) :
      lookup? (Run.split (distinct records)) tables word =
        ((distinct records).find? (·.value == word)).map Record.name := by
    have found := lookup?_build built consecutive small (whole.symm ▸ ascends) word
    rwa [whole] at found
  refine ⟨tables, others, built, otherBuilt, fun word => ⟨?_, answers built word⟩⟩
  rw [answers built, answers otherBuilt]

/-- Three runs, one of them at the end of the range, as a single run would be laid out and as many
runs would be. -/
theorem lookup?_build_eq_apart : ∃ tables others,
    build .oneRun (Run.split [⟨"nul", 0, .unsigned⟩, ⟨"eins", 1, .unsigned⟩, ⟨"fünf", 5, .unsigned⟩,
      ⟨"", 0xffffffffffffffff, .unsigned⟩]) = .ok tables ∧
    build .sparseMap (Run.split [⟨"nul", 0, .unsigned⟩, ⟨"eins", 1, .unsigned⟩,
      ⟨"fünf", 5, .unsigned⟩, ⟨"", 0xffffffffffffffff, .unsigned⟩]) = .ok others ∧
    ∀ word, lookup? (Run.split [⟨"nul", 0, .unsigned⟩, ⟨"eins", 1, .unsigned⟩,
        ⟨"fünf", 5, .unsigned⟩, ⟨"", 0xffffffffffffffff, .unsigned⟩]) tables word =
      lookup? (Run.split [⟨"nul", 0, .unsigned⟩, ⟨"eins", 1, .unsigned⟩, ⟨"fünf", 5, .unsigned⟩,
        ⟨"", 0xffffffffffffffff, .unsigned⟩]) others word := by
  have normal : (normalize "Number" [⟨"fünf", 5, .unsigned⟩, ⟨"nul", 0, .unsigned⟩,
      ⟨"five", 5, .unsigned⟩, ⟨"", 0xffffffffffffffff, .unsigned⟩, ⟨"eins", 1, .unsigned⟩]).outcome =
    .ok [⟨"nul", 0, .unsigned⟩, ⟨"eins", 1, .unsigned⟩, ⟨"fünf", 5, .unsigned⟩,
      ⟨"", 0xffffffffffffffff, .unsigned⟩] := by cbv
  obtain ⟨tables, others, built, otherBuilt, same⟩ :=
    lookup?_build_eq normal (by decide) (by decide) .oneRun .sparseMap
  exact ⟨tables, others, built, otherBuilt, fun word => (same word).1⟩

end Tables
end EnumNames
