import EnumNames.Proofs.Strategy

/-! Names packed into one text and found by value. Each value has the span of the last record with
it, counted in the text that all names make, also those that are no longer found. Where the values
ascend nothing is lost, and the spans cover the text from end to end. -/
namespace EnumNames
open Record

namespace SpanMap

/-- The words ascend, so that no word has two spans. -/
def Ordered (spans : SpanMap) : Prop := spans.Pairwise fun left right => left.1 < right.1

theorem mem_insert {spans : SpanMap} {word : UInt64} {span : Span} {entry : UInt64 × Span}
    (member : entry ∈ spans.insert word span) : entry = (word, span) ∨ entry ∈ spans := by
  induction spans with
  | nil => exact .inl (List.mem_singleton.mp member)
  | cons head spans ih =>
    simp only [insert] at member
    split at member
    · exact List.mem_cons.mp member
    split at member
    · exact (List.mem_cons.mp member).imp_right (List.mem_cons_of_mem _)
    · rcases List.mem_cons.mp member with rfl | rest
      · exact .inr List.mem_cons_self
      · exact (ih rest).imp_right (List.mem_cons_of_mem _)

theorem Ordered.insert {spans : SpanMap} (ordered : spans.Ordered) (word : UInt64) (span : Span) :
    (spans.insert word span).Ordered := by
  induction spans with
  | nil => exact List.pairwise_singleton _ _
  | cons head spans ih =>
    obtain ⟨below, rest⟩ := List.pairwise_cons.mp ordered
    simp only [SpanMap.insert]
    split
    · rename_i less
      refine List.pairwise_cons.mpr ⟨fun entry member => ?_, ordered⟩
      rcases List.mem_cons.mp member with rfl | later
      · exact less
      · exact UInt64.lt_trans less (below entry later)
    split
    · rename_i same
      subst same
      exact List.pairwise_cons.mpr ⟨below, rest⟩
    · rename_i notLess different
      refine List.pairwise_cons.mpr ⟨fun entry member => ?_, ih rest⟩
      rcases mem_insert member with rfl | old
      · exact UInt64.lt_of_le_of_ne (UInt64.not_lt.mp notLess) (Ne.symm different)
      · exact below entry old

theorem isSome_get?_iff {spans : SpanMap} {word : UInt64} :
    (spans.get? word).isSome ↔ word ∈ spans.map Prod.fst := by
  induction spans with
  | nil => simp [get?]
  | cons head spans ih =>
    simp only [get?, List.map_cons, List.mem_cons, ← ih]
    split
    · rename_i same
      simp [same]
    · rename_i different
      simp [Ne.symm different]

theorem Ordered.length_eq {spans : SpanMap} (ordered : spans.Ordered) :
    spans.length = (spans.map Prod.fst).toFinset.card := by
  have nodup : (spans.map Prod.fst).Nodup := by
    refine List.pairwise_map.mpr (ordered.imp fun less same => ?_)
    exact UInt64.ne_of_lt less same
  rw [List.toFinset_card_of_nodup nodup, List.length_map]

end SpanMap

namespace SpanTable

theorem ordered_append {table next : String × SpanMap} {record : Record}
    (step : append table record = .ok next) (ordered : table.2.Ordered) : next.2.Ordered := by
  simp only [append, bind, Except.bind] at step
  split at step
  · cases step
  split at step
  · cases step
  cases step
  exact ordered.insert _ _

theorem ordered_build {runs : List Run} {table : SpanTable} (built : build runs = .ok table) :
    table.spans.Ordered := by
  have first : SpanMap.Ordered ("", ([] : SpanMap)).2 := .nil
  exact @foldlM_append_keeps (fun _ table => table.2.Ordered)
    (fun ordered step => ordered_append step ordered) [] _ _ _ first (foldlM_of_build built).1

end SpanTable

namespace Record

/-- A record with a value that no record behind it has, and the records in front of it. -/
structure IsLast (records : List Record) (word : UInt64) (before : List Record) (record : Record) :
    Prop where
  value : record.value = word
  cut : ∃ after, records = before ++ record :: after ∧ ∀ later ∈ after, later.value ≠ word

namespace IsLast
variable {records before others : List Record} {word : UInt64} {record other : Record}

/-- What stands between two last records with one value is empty. -/
theorem eq_nil_of_append {after rest between : List Record}
    (last : ∀ later ∈ after, later.value ≠ word) (value : other.value = word)
    (same : record :: after = between ++ other :: rest) : between = [] := by
  cases between with
  | nil => rfl
  | cons first between =>
    obtain ⟨_, same⟩ := List.cons.inj same
    have behind : other ∈ after := same ▸ List.mem_append_right _ List.mem_cons_self
    exact absurd value (last other behind)

theorem unique (last : IsLast records word before record) (also : IsLast records word others other) :
    before = others ∧ record = other := by
  obtain ⟨value, after, rfl, behind⟩ := last
  obtain ⟨otherValue, rest, same, otherBehind⟩ := also
  rcases List.append_eq_append_iff.mp same with ⟨between, rfl, tail⟩ | ⟨between, rfl, tail⟩
  · obtain rfl := eq_nil_of_append behind otherValue tail
    exact ⟨(List.append_nil _).symm, (List.cons.inj tail).1⟩
  · obtain rfl := eq_nil_of_append otherBehind value tail
    exact ⟨List.append_nil _, (List.cons.inj tail).1.symm⟩

/-- Where no value comes twice, every record is the last with its value. -/
theorem of_nodup (nodup : (records.map Record.value).Nodup) {k : Nat} (bound : k < records.length) :
    IsLast records records[k].value (records.take k) records[k] := by
  refine ⟨rfl, records.drop (k + 1), ?_, ?_⟩
  · rw [← List.drop_eq_getElem_cons bound, List.take_append_drop]
  · intro later behind same
    obtain ⟨i, inside, rfl⟩ := List.getElem_of_mem behind
    rw [List.length_drop] at inside
    rw [List.getElem_drop] at same
    have differ := List.pairwise_iff_getElem.mp (List.pairwise_map.mp nodup) k (k + 1 + i) bound
      (by omega) (by omega)
    exact differ same.symm

end IsLast
end Record

namespace SpanTable

section
variable {runs : List Run} {table : SpanTable} (built : build runs = .ok table)
include built

/-- A value has a span exactly if a record has it, and the span is that of the last such record. -/
theorem isLast_of_span? {word : UInt64} {span : Span} (found : table.span? word = some span) :
    ∃ before record, IsLast (runs.flatMap Run.records) word before record ∧
      span.start.toNat = (joined before).utf8ByteSize ∧
      span.stop.toNat = (joined (before ++ [record])).utf8ByteSize := by
  obtain ⟨⟨_, _, present⟩, _⟩ := build_eq_ok built
  obtain ⟨before, record, after, cut, value, last, start, stop⟩ := present found
  refine ⟨before, record, ⟨value, after, cut, last⟩, start, ?_⟩
  rw [stop, joined_append_singleton]

theorem span?_eq_none_iff {word : UInt64} :
    table.span? word = none ↔ ∀ record ∈ runs.flatMap Run.records, record.value ≠ word := by
  constructor
  · intro missing
    obtain ⟨⟨_, absent, _⟩, _⟩ := build_eq_ok built
    exact absent missing
  · intro different
    cases found : table.span? word with
    | none => rfl
    | some span =>
      obtain ⟨before, record, ⟨value, after, cut, _⟩, _⟩ := isLast_of_span? built found
      exact absurd value (different record (cut ▸ List.mem_append_right _ List.mem_cons_self))

theorem exists_span?_of_isLast {word : UInt64} {before : List Record} {record : Record}
    (last : IsLast (runs.flatMap Run.records) word before record) : ∃ span,
      table.span? word = some span ∧ span.start.toNat = (joined before).utf8ByteSize ∧
        span.stop.toNat = (joined (before ++ [record])).utf8ByteSize := by
  cases found : table.span? word with
  | none =>
    obtain ⟨value, after, cut, _⟩ := last
    have different := (span?_eq_none_iff built).mp found
    exact absurd value (different record (cut ▸ List.mem_append_right _ List.mem_cons_self))
  | some span =>
    obtain ⟨others, other, also, start, stop⟩ := isLast_of_span? built found
    obtain ⟨rfl, rfl⟩ := last.unique also
    exact ⟨span, rfl, start, stop⟩

/-- The name found for a value is that of the last record with it. -/
theorem name?_of_isLast {word : UInt64} {before : List Record} {record : Record}
    (last : IsLast (runs.flatMap Run.records) word before record) :
    table.name? word = some record.name := by
  obtain ⟨value, after, cut, behind⟩ := last
  rw [name?_build built, cut, declared?_reverse_of_last value behind, Option.map_some]

/-- There are as many spans as there are different values. -/
theorem size_eq_card :
    table.size = ((runs.flatMap Run.records).map Record.value).toFinset.card := by
  rw [size, (ordered_build built).length_eq]
  congr 1
  ext word
  have missing : table.spans.get? word = none ↔ _ := span?_eq_none_iff built
  rw [List.mem_toFinset, List.mem_toFinset, ← SpanMap.isSome_get?_iff, Option.isSome_iff_ne_none,
    ne_eq, missing]
  simp only [List.mem_map, ne_eq, not_forall, not_not, exists_prop]

section
variable (nodup : ((runs.flatMap Run.records).map Record.value).Nodup)
include nodup

/-- Where no value comes twice, the span of each record is where its name was packed. -/
theorem exists_span?_getElem {k : Nat} (bound : k < (runs.flatMap Run.records).length) :
    ∃ span, table.span? (runs.flatMap Run.records)[k].value = some span ∧
      span.start.toNat = (joined ((runs.flatMap Run.records).take k)).utf8ByteSize ∧
      span.stop.toNat = (joined ((runs.flatMap Run.records).take (k + 1))).utf8ByteSize := by
  rw [← List.take_append_getElem bound]
  exact exists_span?_of_isLast built (IsLast.of_nodup nodup bound)

/-- Each span then begins where the one before it ends, from the beginning of the text on up to its
end. -/
theorem exists_spans (nonempty : runs.flatMap Run.records ≠ []) : ∃ spans : List Span,
    (runs.flatMap Run.records).map (fun record => table.span? record.value) = spans.map some ∧
      spans.head?.map Span.start = some 0 ∧
      (spans.IsChain fun left right => right.start = left.stop) ∧
      spans.getLast?.map (·.stop.toNat) = some table.blob.utf8ByteSize := by
  have blob : table.blob = joined (runs.flatMap Run.records) := (build_eq_ok built).1.blob
  have each := fun k : Fin _ => exists_span?_getElem built nodup k.isLt
  have positive := List.length_pos_of_ne_nil nonempty
  rw [blob]
  generalize runs.flatMap Run.records = records at *
  choose span found start stop using each
  refine ⟨List.ofFn span, ?_, ?_, ?_, ?_⟩
  · refine List.ext_getElem (by simp) fun k bound _ => ?_
    rw [List.length_map] at bound
    simpa using found ⟨k, bound⟩
  · have first : (span ⟨0, positive⟩).start = 0 := UInt32.toNat_inj.mp (start ⟨0, positive⟩)
    simp [List.head?_eq_getElem?, positive, first]
  · rw [List.isChain_iff_getElem]
    intro k bound
    rw [List.length_ofFn] at bound
    rw [List.getElem_ofFn, List.getElem_ofFn]
    apply UInt32.toNat_inj.mp
    rw [start, stop]
  · have last := stop ⟨records.length - 1, Nat.sub_one_lt_of_lt positive⟩
    simp only [Nat.sub_add_cancel positive, List.take_length] at last
    simp [List.getLast?_eq_getElem?, positive, last]

end
end

/-- The names of a list in any order, also with repeated values, make one text in which a value has
the span of the last record with it, and a value without a record has none. Spans are counted once
for each value. For normalized records they divide the text without gaps in the order of the
records. -/
theorem span?_build_split {records : List Record}
    (bytes : (joined records).utf8ByteSize < 0x100000000) :
    ∃ table, build (Run.split records) = .ok table ∧ table.blob = joined records ∧
      (∀ word, (∀ record ∈ records, record.value ≠ word) →
        table.span? word = none ∧ table.name? word = none) ∧
      (∀ word, (∃ record ∈ records, record.value = word) → ∃ before record span,
        IsLast records word before record ∧ table.span? word = some span ∧
          span.start.toNat = (joined before).utf8ByteSize ∧
          span.stop.toNat = span.start.toNat + record.name.utf8ByteSize ∧
          table.name? word = some record.name) ∧
      table.size = (records.map Record.value).toFinset.card ∧
      ∀ typeName declared, (normalize typeName declared).outcome = .ok records →
        ∃ spans : List Span, ((Run.split records).flatMap Run.records).map
            (fun record => table.span? record.value) = spans.map some ∧
          spans.head?.map Span.start = some 0 ∧
          (spans.IsChain fun left right => right.start = left.stop) ∧
          spans.getLast?.map (·.stop.toNat) = some table.blob.utf8ByteSize := by
  have whole := Run.flatMap_records_split records
  obtain ⟨table, built⟩ := build_succeeds (whole.symm ▸ bytes)
  refine ⟨table, built, whole ▸ (build_eq_ok built).1.blob, ?_, ?_, whole ▸ size_eq_card built, ?_⟩
  · intro word different
    have missing : table.span? word = none :=
      (span?_eq_none_iff built).mpr (whole.symm ▸ different)
    exact ⟨missing, by rw [name?, missing]; rfl⟩
  · rintro word ⟨record, member, value⟩
    have present : table.span? word ≠ none := fun missing =>
      (span?_eq_none_iff built).mp missing record (whole.symm ▸ member) value
    obtain ⟨span, found⟩ := Option.ne_none_iff_exists'.mp present
    obtain ⟨before, last, isLast, start, stop⟩ := isLast_of_span? built found
    refine ⟨before, last, span, whole ▸ isLast, found, start, ?_, name?_of_isLast built isLast⟩
    rw [stop, start, joined_append_singleton, String.utf8ByteSize_append]
  · intro typeName declared normal
    obtain ⟨⟨signedness, common⟩, rfl⟩ := normalize_eq_ok_iff.mp normal
    obtain ⟨nonempty, uniform⟩ := commonSignedness_eq_ok_iff.mp common
    have ascends := ascending_distinct uniform
    exact exists_spans built (whole.symm ▸ ascends.values_nodup)
      (whole.symm ▸ distinct_ne_nil uniform nonempty)

/-- A value that comes back behind a run of two, and normalized records with an empty name. -/
theorem span?_build_split_repeated :
    (∃ table, build (Run.split [⟨"eins", 1, .unsigned⟩, ⟨"zwei", 2, .unsigned⟩,
        ⟨"ä", 1, .unsigned⟩]) = .ok table ∧
      table.blob = "einszweiä" ∧ table.size = 2 ∧ table.name? 3 = none ∧
      ∃ span, table.span? 1 = some span ∧ span.start.toNat = 8 ∧ span.stop.toNat = 10 ∧
        table.name? 1 = some "ä") ∧
    ∃ table, build (Run.split [⟨"minus", 0xffffffffffffffff, .signed⟩, ⟨"", 0, .signed⟩,
        ⟨"high", 7, .signed⟩]) = .ok table ∧
      ∃ first second third, table.span? 0xffffffffffffffff = some first ∧
        table.span? 0 = some second ∧ table.span? 7 = some third ∧ first.start = 0 ∧
        second.start = first.stop ∧ third.start = second.stop ∧ third.stop.toNat = 9 := by
  constructor
  · obtain ⟨table, built, blob, absent, present, size, _⟩ := @span?_build_split
      [⟨"eins", 1, .unsigned⟩, ⟨"zwei", 2, .unsigned⟩, ⟨"ä", 1, .unsigned⟩] (by decide)
    obtain ⟨before, record, span, last, found, start, stop, name⟩ := present 1 (by simp)
    have behind : IsLast [⟨"eins", 1, .unsigned⟩, ⟨"zwei", 2, .unsigned⟩, ⟨"ä", 1, .unsigned⟩] 1
        [⟨"eins", 1, .unsigned⟩, ⟨"zwei", 2, .unsigned⟩] ⟨"ä", 1, .unsigned⟩ :=
      ⟨rfl, [], rfl, by simp⟩
    obtain ⟨rfl, rfl⟩ := last.unique behind
    have starts : span.start.toNat = 8 := start.trans (by decide)
    exact ⟨table, built, blob.trans (by decide), size.trans (by decide), (absent 3 (by simp)).2,
      span, found, starts, by rw [stop, starts]; decide, name⟩
  · have normal : (normalize "Level" [⟨"", 0, .signed⟩, ⟨"high", 7, .signed⟩,
        ⟨"minus", 0xffffffffffffffff, .signed⟩, ⟨"nul", 0, .signed⟩]).outcome =
      .ok [⟨"minus", 0xffffffffffffffff, .signed⟩, ⟨"", 0, .signed⟩, ⟨"high", 7, .signed⟩] := by cbv
    obtain ⟨table, built, blob, _, _, _, divided⟩ := @span?_build_split
      [⟨"minus", 0xffffffffffffffff, .signed⟩, ⟨"", 0, .signed⟩, ⟨"high", 7, .signed⟩] (by decide)
    obtain ⟨spans, found, begins, meet, last⟩ := divided _ _ normal
    rw [Run.flatMap_records_split] at found
    obtain ⟨first, second, third, rfl⟩ :=
      List.length_eq_three.mp ((List.length_map some).symm.trans (congrArg List.length found.symm))
    simp only [List.map_cons, List.map_nil, List.cons.injEq, and_true] at found
    simp only [List.isChain_cons_cons, List.isChain_singleton, and_true] at meet
    rw [blob] at last
    exact ⟨table, built, first, second, third, found.1, found.2.1, found.2.2,
      Option.some.inj begins, meet.1, meet.2, (Option.some.inj last).trans (by decide)⟩

end SpanTable
end EnumNames
