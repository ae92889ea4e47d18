import EnumNames.Proofs.Packing
import EnumNames.Proofs.Spans

/-! How wide offsets are stored. A width is the least that holds the greatest offset, and since
offsets ascend up to the length of their text, that is the least that holds all of them, in one
table as well as in all tables of a type. -/
namespace EnumNames
open Record

namespace Width

/-- The least of the widths whose words hold all numbers. -/
structure Narrowest (width : Width) (numbers : List Nat) : Prop where
  holds : ∀ n ∈ numbers, n < 2 ^ width.bits
  least : ∀ other : Width, (∀ n ∈ numbers, n < 2 ^ other.bits) → width.bits ≤ other.bits

theorem capacity_eq (width : Width) : width.capacity = 2 ^ width.bits := by
  cases width <;> rfl

theorem bits_injective {left right : Width} (same : left.bits = right.bits) : left = right := by
  cases left <;> cases right <;> simp [bits] at same ⊢

namespace Narrowest
variable {width other : Width} {numbers others : List Nat}

theorem unique (left : Narrowest width numbers) (right : Narrowest other numbers) : width = other :=
  bits_injective (Nat.le_antisymm (left.least other right.holds) (right.least width left.holds))

theorem nil : Narrowest .w8 [] :=
  ⟨by simp, fun other _ => by cases other <;> decide⟩

/-- The wider of two widths is the least for both. -/
theorem append (left : Narrowest width numbers) (right : Narrowest other others) :
    Narrowest (width.max other) (numbers ++ others) := by
  have wider : (width.max other).bits = Nat.max width.bits other.bits := bits_max width other
  constructor
  · intro n member
    rw [wider]
    rcases List.mem_append.mp member with inside | inside
    · exact (left.holds n inside).trans_le
        (Nat.pow_le_pow_right (by decide) (Nat.le_max_left _ _))
    · exact (right.holds n inside).trans_le
        (Nat.pow_le_pow_right (by decide) (Nat.le_max_right _ _))
  · intro another holds
    rw [wider]
    have leftFits := left.least another fun n inside => holds n (List.mem_append_left _ inside)
    have rightFits := right.least another fun n inside => holds n (List.mem_append_right _ inside)
    exact Nat.max_le.mpr ⟨leftFits, rightFits⟩

/-- The greatest number alone decides. -/
theorem iff_singleton {greatest : Nat} (member : greatest ∈ numbers)
    (bound : ∀ n ∈ numbers, n ≤ greatest) :
    Narrowest width numbers ↔ Narrowest width [greatest] := by
  have same (width : Width) :
      (∀ n ∈ numbers, n < 2 ^ width.bits) ↔ ∀ n ∈ [greatest], n < 2 ^ width.bits := by
    rw [List.forall_mem_singleton]
    exact ⟨fun holds => holds greatest member,
      fun holds n inside => (bound n inside).trans_lt holds⟩
  constructor
  · rintro ⟨holds, least⟩
    exact ⟨(same width).mp holds, fun other fits => least other ((same other).mpr fits)⟩
  · rintro ⟨holds, least⟩
    exact ⟨(same width).mpr holds, fun other fits => least other ((same other).mp fits)⟩

end Narrowest

theorem narrowest_of_forLength {length : Nat} {width : Width}
    (chosen : forLength length = .ok width) : Narrowest width [length] := by
  refine ⟨?_, ?_⟩
  · rw [List.forall_mem_singleton, ← capacity_eq]
    exact forLength_fits chosen
  · intro other holds
    rw [List.forall_mem_singleton, ← capacity_eq] at holds
    unfold forLength at chosen
    split at chosen
    · cases chosen
      cases other <;> decide
    split at chosen
    · rename_i beyond _
      cases chosen
      cases other with
      | w8 => exact absurd holds beyond
      | w16 | w32 => decide
    split at chosen
    · rename_i beyond far _
      cases chosen
      cases other with
      | w8 => exact absurd holds beyond
      | w16 => exact absurd holds far
      | w32 => decide
    · cases chosen

theorem forLength_eq_ok_iff {length : Nat} {width : Width} :
    forLength length = .ok width ↔ Narrowest width [length] := by
  constructor
  · exact narrowest_of_forLength
  · intro narrowest
    have holds := narrowest.holds length List.mem_cons_self
    have greatest : width.bits ≤ 32 := by cases width <;> decide
    obtain ⟨other, chosen⟩ :=
      forLength_eq_ok (holds.trans_le (Nat.pow_le_pow_right (by decide) greatest))
    rw [chosen, narrowest.unique (narrowest_of_forLength chosen)]

end Width

namespace NameTable

/-- What is stored for so many members: one offset more, from the beginning of the text to its end
and never backwards, each in words no wider than the offsets need. -/
structure Measured (members : Nat) (table : NameTable) : Prop where
  count : table.offsets.toList.length = members + 1
  first : table.offsets.toList.head? = some 0
  last : table.offsets.toList.getLast? = some table.blob.utf8ByteSize
  ordered : table.offsets.toList.Pairwise (· ≤ ·)
  narrowest : table.width.Narrowest table.offsets.toList

namespace Measured
variable {members : Nat} {table : NameTable} (measured : Measured members table)
include measured

theorem size_mem : table.blob.utf8ByteSize ∈ table.offsets.toList :=
  List.mem_of_getLast? measured.last

theorem le_size {offset : Nat} (member : offset ∈ table.offsets.toList) :
    offset ≤ table.blob.utf8ByteSize := by
  have nonempty := List.ne_nil_of_mem member
  have last := (List.getLast?_eq_some_getLast nonempty).symm.trans measured.last
  rw [← Option.some.inj last]
  exact measured.ordered.rel_getLast member

end Measured

theorem measured_of_build {records : List Record} {table : NameTable}
    (built : build records = .ok table) : Measured records.length table := by
  obtain ⟨blob, chosen, met⟩ := build_eq_ok built
  have listed := toList_offsets built
  have first : table.offsets.toList.head? = some 0 := by
    rw [listed, List.range_succ_eq_map, List.map_cons, List.head?_cons]
    rfl
  have last : table.offsets.toList.getLast? = some table.blob.utf8ByteSize := by
    rw [listed, blob, List.range_succ, List.map_append, List.map_singleton, List.getLast?_concat,
      List.take_length]
  have ordered : table.offsets.toList.Pairwise (· ≤ ·) := by
    rw [listed, List.pairwise_map]
    refine List.pairwise_lt_range.imp fun less => ?_
    exact utf8ByteSize_joined_le (List.take_prefix_take_left less.le).sublist
  have greatest : ∀ offset ∈ table.offsets.toList, offset ≤ table.blob.utf8ByteSize := by
    intro offset member
    rw [blob]
    exact le_of_mem_boundaries (met ▸ member)
  refine ⟨length_offsets built, first, last, ordered, ?_⟩
  rw [Width.Narrowest.iff_singleton (List.mem_of_getLast? last) greatest, blob]
  exact Width.narrowest_of_forLength chosen

end NameTable

namespace Tables

/-- The wider of all widths is the least for the offsets of all tables. -/
theorem narrowest_foldl_max {tables : List NameTable} {width : Width} {numbers : List Nat}
    (each : ∀ table ∈ tables, table.width.Narrowest table.offsets.toList)
    (before : width.Narrowest numbers) :
    ((tables.map NameTable.width).foldl Width.max width).Narrowest
      (numbers ++ tables.flatMap (·.offsets.toList)) := by
  induction tables generalizing width numbers with
  | nil => simpa using before
  | cons table tables ih =>
    rw [List.map_cons, List.foldl_cons, List.flatMap_cons, ← List.append_assoc]
    exact ih (fun other member => each other (List.mem_cons_of_mem _ member))
      (before.append (each table List.mem_cons_self))

section
variable {tables : List NameTable}
  (each : ∀ table ∈ tables, ∃ members, NameTable.Measured members table)
include each

theorem narrowest_perRun :
    (perRun tables).width.Narrowest (tables.flatMap (·.offsets.toList)) := by
  refine narrowest_foldl_max (fun table member => ?_) Width.Narrowest.nil
  obtain ⟨_, measured⟩ := each table member
  exact measured.narrowest

/-- The longest text alone decides how wide the offsets of a type are. -/
theorem forLength_longest (nonempty : tables ≠ []) : ∃ longest ∈ tables,
    (∀ table ∈ tables, table.blob.utf8ByteSize ≤ longest.blob.utf8ByteSize) ∧
      Width.forLength longest.blob.utf8ByteSize = .ok (perRun tables).width := by
  obtain ⟨longest, member, greatest⟩ := tables.toFinset.exists_max_image
    (fun table => table.blob.utf8ByteSize) (List.toFinset_nonempty_iff tables |>.mpr nonempty)
  simp only [List.mem_toFinset] at member greatest
  refine ⟨longest, member, greatest, ?_⟩
  have stored : longest.blob.utf8ByteSize ∈ tables.flatMap (·.offsets.toList) := by
    obtain ⟨_, measured⟩ := each longest member
    exact List.mem_flatMap.mpr ⟨longest, member, measured.size_mem⟩
  have bound : ∀ offset ∈ tables.flatMap (·.offsets.toList),
      offset ≤ longest.blob.utf8ByteSize := by
    intro offset inside
    obtain ⟨table, among, inside⟩ := List.mem_flatMap.mp inside
    obtain ⟨_, measured⟩ := each table among
    exact (measured.le_size inside).trans (greatest table among)
  rw [Width.forLength_eq_ok_iff, ← Width.Narrowest.iff_singleton stored bound]
  exact narrowest_perRun each

end
end Tables

namespace SpanMap

theorem mem_of_get? {spans : SpanMap} {word : UInt64} {span : Span}
    (found : spans.get? word = some span) : (word, span) ∈ spans := by
  induction spans with
  | nil => cases found
  | cons head spans ih =>
    simp only [get?] at found
    split at found
    · rename_i same
      cases found
      exact same ▸ List.mem_cons_self
    · exact List.mem_cons_of_mem _ (ih found)

theorem Ordered.get?_eq_some_iff {spans : SpanMap} (ordered : spans.Ordered) {word : UInt64}
    {span : Span} : spans.get? word = some span ↔ (word, span) ∈ spans := by
  refine ⟨mem_of_get?, fun member => ?_⟩
  induction spans with
  | nil => cases member
  | cons head spans ih =>
    obtain ⟨below, rest⟩ := List.pairwise_cons.mp ordered
    simp only [get?]
    rcases List.mem_cons.mp member with rfl | later
    · exact if_pos rfl
    · rw [if_neg (UInt64.ne_of_lt (below _ later)), ih rest later]

end SpanMap

namespace SpanTable
variable {runs : List Run} {table : SpanTable} (built : build runs = .ok table)
include built

theorem stop_le_size {entry : UInt64 × Span} (member : entry ∈ table.spans) :
    entry.2.stop.toNat ≤ table.blob.utf8ByteSize := by
  have found : table.span? entry.1 = some entry.2 :=
    (ordered_build built).get?_eq_some_iff.mpr member
  obtain ⟨before, record, ⟨_, after, cut, _⟩, _, stop⟩ := isLast_of_span? built found
  have blob : table.blob = joined (runs.flatMap Run.records) := (build_eq_ok built).1.blob
  rw [stop, blob, cut]
  refine utf8ByteSize_joined_le (List.Sublist.append_left ?_ before)
  exact (List.nil_sublist after).cons_cons record

/-- The name of the last record ends where the text ends. -/
theorem exists_stop_eq_size (nonempty : runs.flatMap Run.records ≠ []) :
    table.blob.utf8ByteSize ∈ table.spans.map (·.2.stop.toNat) := by
  have blob : table.blob = joined (runs.flatMap Run.records) := (build_eq_ok built).1.blob
  obtain ⟨before, record, whole⟩ := List.eq_nil_or_concat' (runs.flatMap Run.records)
    |>.resolve_left nonempty
  have last : IsLast (runs.flatMap Run.records) record.value before record :=
    ⟨rfl, [], whole, by simp⟩
  obtain ⟨span, found, _, stop⟩ := exists_span?_of_isLast built last
  rw [← whole, ← blob] at stop
  exact List.mem_map.mpr ⟨_, SpanMap.mem_of_get? found, stop⟩

theorem narrowest_stops (nonempty : runs.flatMap Run.records ≠ []) :
    table.width.Narrowest (table.spans.map (·.2.stop.toNat)) := by
  have bound : ∀ stop ∈ table.spans.map (·.2.stop.toNat), stop ≤ table.blob.utf8ByteSize := by
    intro stop member
    obtain ⟨entry, among, rfl⟩ := List.mem_map.mp member
    exact stop_le_size built among
  rw [Width.Narrowest.iff_singleton (exists_stop_eq_size built nonempty) bound]
  exact Width.narrowest_of_forLength (build_eq_ok built).2

end SpanTable
end EnumNames
