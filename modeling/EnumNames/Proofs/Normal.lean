import EnumNames.Normal
import EnumNames.Proofs.Signedness
import Mathlib.Data.List.Nodup
import Mathlib.Data.List.SplitBy

/-! What normalization keeps. The records that remain ascend strictly, and for every word the
first of them with that value is the first declared one. These two facts determine them. -/
namespace EnumNames.Record

/-- Values ascend strictly when they are all read in one way. -/
def Ascending (signedness : Signedness) (records : List Record) : Prop :=
  records.Pairwise fun left right => signedness.read left.value < signedness.read right.value

/-- The first record with a value. -/
def declared? (records : List Record) (word : UInt64) : Option Record :=
  records.find? (·.value == word)

theorem declared?_eq_none_iff {records : List Record} {word : UInt64} :
    declared? records word = none ↔ ∀ record ∈ records, record.value ≠ word := by
  simp [declared?]

theorem declared?_value {records : List Record} {word : UInt64} {record : Record}
    (found : declared? records word = some record) : record.value = word := by
  simpa using List.find?_some found

theorem declared?_mem {records : List Record} {word : UInt64} {record : Record}
    (found : declared? records word = some record) : record ∈ records :=
  List.mem_of_find?_eq_some found

theorem commonSignedness_eq_ok_iff {typeName : String} {records : List Record}
    {signedness : Signedness} : commonSignedness typeName records = .ok signedness ↔
      records ≠ [] ∧ ∀ record ∈ records, record.signedness = signedness := by
  cases records with
  | nil => simp [commonSignedness]
  | cons first others =>
    simp only [commonSignedness, ne_eq, reduceCtorEq, not_false_eq_true, true_and,
      List.forall_mem_cons]
    split
    · rename_i odd found
      have different : odd.signedness ≠ first.signedness := by
        simpa using List.find?_some found
      simp only [reduceCtorEq, false_iff, not_and]
      rintro rfl all
      exact different (all odd (List.mem_of_find?_eq_some found))
    · rename_i none
      have all : ∀ record ∈ others, record.signedness = first.signedness := by
        simpa using none
      constructor
      · rintro ⟨⟩
        exact ⟨rfl, all⟩
      · rintro ⟨rfl, _⟩
        rfl

/-- The order of the integers, which is total on all records of whatever signedness. -/
def readLE (signedness : Signedness) (left right : Record) : Bool :=
  signedness.read left.value ≤ signedness.read right.value

theorem readLE_trans (signedness : Signedness) (a b c : Record)
    (ab : readLE signedness a b = true) (bc : readLE signedness b c = true) :
    readLE signedness a c = true := by
  simp only [readLE, decide_eq_true_eq] at *
  omega

theorem readLE_total (signedness : Signedness) (a b : Record) :
    (readLE signedness a b || readLE signedness b a) = true := by
  simp only [readLE, Bool.or_eq_true, decide_eq_true_eq]
  omega

section
variable {signedness : Signedness} {records : List Record}
  (uniform : ∀ record ∈ records, record.signedness = signedness)
include uniform

theorem ascending_eq : ascending records = records.mergeSort (readLE signedness) := by
  have same := List.map_mergeSort (f := id) (l := records)
    (r := fun left right => (left.compareValue right).isLE) (s := readLE signedness)
    (fun left member right _ => by
      rw [Bool.eq_iff_iff, readLE, decide_eq_true_iff, compareValue, uniform left member]
      exact Signedness.isLE_compare)
  rwa [List.map_id, List.map_id] at same

theorem ascending_pairwise : (ascending records).Pairwise fun left right =>
    signedness.read left.value ≤ signedness.read right.value := by
  rw [ascending_eq uniform]
  have sorted := List.pairwise_mergeSort (readLE_trans signedness) (readLE_total signedness) records
  simpa only [readLE, decide_eq_true_eq] using sorted

/-- The sort is stable: the records of one value stay in their order. -/
theorem filter_ascending (word : UInt64) :
    (ascending records).filter (·.value == word) = records.filter (·.value == word) := by
  have perm : (ascending records).Perm records := List.mergeSort_perm _ _
  have equal : (records.filter (·.value == word)).Pairwise (readLE signedness · · = true) := by
    apply List.pairwise_of_forall_mem_list
    intro left l right r
    simp only [List.mem_filter, beq_iff_eq] at l r
    simp [readLE, l.2, r.2]
  have kept : (records.filter (·.value == word)).Sublist (ascending records) := by
    rw [ascending_eq uniform]
    exact List.sublist_mergeSort (readLE_trans signedness) (readLE_total signedness) equal
      List.filter_sublist
  have inside := kept.filter (·.value == word)
  rw [List.filter_filter] at inside
  simp only [Bool.and_self] at inside
  exact (inside.eq_of_length (perm.filter _).length_eq.symm).symm

theorem declared?_ascending (word : UInt64) :
    declared? (ascending records) word = declared? records word := by
  rw [declared?, declared?, ← List.head?_filter, ← List.head?_filter, filter_ascending uniform]

end

/-- The records of one group share their value. -/
theorem value_of_mem_byValue {records group : List Record} (member : group ∈ byValue records)
    {left right : Record} (l : left ∈ group) (r : right ∈ group) : left.value = right.value := by
  have chain : group.IsChain fun left right => left.value = right.value := by
    simpa using List.isChain_of_mem_splitBy member
  have values : (group.map Record.value).IsChain (· = ·) := (List.isChain_map _).mpr chain
  have equal := List.isChain_iff_pairwise.mp values
  exact equal.forall_of_forall (fun _ _ => rfl) (List.mem_map_of_mem l) (List.mem_map_of_mem r)

theorem flatten_byValue (records : List Record) : (byValue records).flatten = ascending records :=
  List.flatten_splitBy _ _

/-- Taking the first of each group keeps the first record of each value. -/
theorem declared?_heads {groups : List (List Record)}
    (equal : ∀ group ∈ groups, ∀ left ∈ group, ∀ right ∈ group, left.value = right.value)
    (word : UInt64) :
    declared? (groups.filterMap List.head?) word = declared? groups.flatten word := by
  induction groups with
  | nil => rfl
  | cons group groups ih =>
    have rest := ih fun other member => equal other (List.mem_cons_of_mem _ member)
    cases group with
    | nil => exact rest
    | cons first others =>
      have same := equal _ List.mem_cons_self first List.mem_cons_self
      simp only [declared?] at rest ⊢
      simp only [List.filterMap_cons, List.head?_cons, List.flatten_cons, List.cons_append,
        List.find?_cons, List.find?_append, rest]
      split
      · rfl
      · rename_i different
        have none : others.find? (·.value == word) = none := by
          simp only [List.find?_eq_none, beq_iff_eq]
          intro other member hit
          simp [same other (List.mem_cons_of_mem _ member), hit] at different
        rw [none, Option.none_or]

theorem declared?_distinct {signedness : Signedness} {records : List Record}
    (uniform : ∀ record ∈ records, record.signedness = signedness) (word : UInt64) :
    declared? (distinct records) word = declared? records word := by
  rw [← declared?_ascending uniform, ← flatten_byValue]
  exact declared?_heads (fun _ member _ l _ r => value_of_mem_byValue member l r) word

theorem sublist_heads (groups : List (List Record)) :
    (groups.filterMap List.head?).Sublist groups.flatten := by
  induction groups with
  | nil => exact .slnil
  | cons group groups ih =>
    cases group with
    | nil => exact ih
    | cons first others => exact (ih.trans (List.sublist_append_right _ _)).cons_cons first

theorem distinct_sublist (records : List Record) : (distinct records).Sublist (ascending records) :=
  flatten_byValue records ▸ sublist_heads _

theorem mem_of_mem_distinct {records : List Record} {record : Record}
    (member : record ∈ distinct records) : record ∈ records :=
  (List.mergeSort_perm _ _).mem_iff.mp ((distinct_sublist records).subset member)

/-- Where one group ends and the next begins the value changes. -/
theorem heads_differ {groups : List (List Record)}
    (equal : ∀ group ∈ groups, ∀ left ∈ group, ∀ right ∈ group, left.value = right.value)
    (breaks : groups.IsChain fun left right =>
      ∃ (l : left ≠ []) (r : right ≠ []), ((left.getLast l).value == (right.head r).value) = false) :
    (groups.filterMap List.head?).IsChain fun left right => left.value ≠ right.value := by
  induction breaks with
  | nil => exact .nil
  | singleton group => cases group <;> simp [List.filterMap]
  | @cons_cons left right groups differ _ ih =>
    obtain ⟨l, r, differ⟩ := differ
    have rest := ih fun group member => equal group (List.mem_cons_of_mem _ member)
    obtain ⟨first, others, rfl⟩ := List.exists_cons_of_ne_nil l
    obtain ⟨next, more, rfl⟩ := List.exists_cons_of_ne_nil r
    have same := equal _ List.mem_cons_self first List.mem_cons_self _ (List.getLast_mem l)
    rw [← same] at differ
    exact .cons_cons (by simpa using differ) rest

theorem ascending_distinct {signedness : Signedness} {records : List Record}
    (uniform : ∀ record ∈ records, record.signedness = signedness) :
    Ascending signedness (distinct records) := by
  have ordered := (ascending_pairwise uniform).sublist (distinct_sublist records)
  have breaks := List.isChain_getLast_head_splitBy
    (fun left right : Record => left.value == right.value) (ascending records)
  have differ : (distinct records).IsChain fun left right => left.value ≠ right.value :=
    heads_differ (fun _ member _ l _ r => value_of_mem_byValue member l r) breaks
  have strict : (distinct records).IsChain fun left right =>
      signedness.read left.value < signedness.read right.value := by
    rw [List.isChain_iff_forall_rel_of_append_cons_cons] at differ ⊢
    intro left right before after split
    have le := List.isChain_iff_forall_rel_of_append_cons_cons.mp ordered.isChain split
    have ne : signedness.read left.value ≠ signedness.read right.value :=
      fun same => differ split (Signedness.read_inj.mp same)
    omega
  have numbers : ((distinct records).map fun record => signedness.read record.value).IsChain
      (· < ·) := (List.isChain_map _).mpr strict
  exact List.pairwise_map.mp (List.isChain_iff_pairwise.mp numbers)

theorem declared?_eq_some_iff {records : List Record} (nodup : (records.map Record.value).Nodup)
    {word : UInt64} {record : Record} :
    declared? records word = some record ↔ record ∈ records ∧ record.value = word := by
  constructor
  · exact fun found => ⟨declared?_mem found, declared?_value found⟩
  · rintro ⟨member, rfl⟩
    cases found : declared? records record.value with
    | none => exact absurd rfl (declared?_eq_none_iff.mp found record member)
    | some first =>
      have same := List.inj_on_of_nodup_map nodup (declared?_mem found) member
        (declared?_value found)
      rw [same]

/-- Where no value comes twice, the order of the records does not matter. -/
theorem declared?_perm {records others : List Record} (perm : records.Perm others)
    (nodup : (records.map Record.value).Nodup) (word : UInt64) :
    declared? records word = declared? others word := by
  have nodup' := (perm.map Record.value).nodup_iff.mp nodup
  ext record
  rw [declared?_eq_some_iff nodup, declared?_eq_some_iff nodup', perm.mem_iff]

namespace Ascending
variable {signedness : Signedness} {records others : List Record}

theorem values_nodup (ascends : Ascending signedness records) :
    (records.map Record.value).Nodup := by
  rw [List.Nodup, List.pairwise_map]
  refine ascends.imp ?_
  intro left right less same
  rw [same] at less
  exact Int.lt_irrefl _ less

/-- Strictly ascending records are determined by what is declared for each word. -/
theorem ext (left : Ascending signedness records) (right : Ascending signedness others)
    (same : ∀ word, declared? records word = declared? others word) : records = others := by
  have members (record : Record) : record ∈ records ↔ record ∈ others := by
    have l : declared? records record.value = some record ↔ record ∈ records := by
      rw [declared?_eq_some_iff left.values_nodup, and_iff_left rfl]
    have r : declared? others record.value = some record ↔ record ∈ others := by
      rw [declared?_eq_some_iff right.values_nodup, and_iff_left rfl]
    rw [← l, ← r, same]
  have perm : records.Perm others :=
    (List.perm_ext_iff_of_nodup (List.Nodup.of_map _ left.values_nodup)
      (List.Nodup.of_map _ right.values_nodup)).mpr members
  exact perm.eq_of_pairwise (fun _ _ _ _ l r => absurd l (Int.lt_asymm r)) left right

end Ascending

/-- Nothing is left to do for records that ascend already. -/
theorem distinct_of_ascending {signedness : Signedness} {records : List Record}
    (uniform : ∀ record ∈ records, record.signedness = signedness)
    (ascends : Ascending signedness records) : distinct records = records :=
  (ascending_distinct uniform).ext ascends (declared?_distinct uniform)

/-- Of strictly ascending records at most one has a value. -/
theorem Ascending.filter_value {signedness : Signedness} {records : List Record}
    (ascends : Ascending signedness records) (word : UInt64) :
    records.filter (·.value == word) = (declared? records word).toList := by
  have alike : (records.filter (·.value == word)).Pairwise fun _ _ => False := by
    refine (ascends.sublist List.filter_sublist).imp_of_mem ?_
    intro left right l r less
    simp only [List.mem_filter, beq_iff_eq] at l r
    rw [l.2, r.2] at less
    exact Int.lt_irrefl _ less
  rw [declared?, ← List.head?_filter]
  generalize records.filter (·.value == word) = group at alike ⊢
  cases group with
  | nil => rfl
  | cons record others =>
    cases others with
    | nil => rfl
    | cons next others => exact (List.rel_of_pairwise_cons alike List.mem_cons_self).elim

/-- Normalization succeeds exactly if the records agree on how they are read, and leaves the first
of each value. -/
theorem normalize_eq_ok_iff {typeName : String} {records members : List Record} :
    (normalize typeName records).outcome = .ok members ↔
      (∃ signedness, commonSignedness typeName records = .ok signedness) ∧
        members = distinct records := by
  simp only [normalize, bind, Traced.bind, Traced.ofExcept, Traced.report, pure]
  cases commonSignedness typeName records with
  | error error => simp
  | ok signedness => simp [eq_comm]

section
variable {signedness : Signedness} {records : List Record}
  (uniform : ∀ record ∈ records, record.signedness = signedness)
include uniform

theorem normalize_uniform (typeName : String) (nonempty : records ≠ []) :
    (normalize typeName records).outcome = .ok (distinct records) :=
  normalize_eq_ok_iff.mpr ⟨⟨signedness, commonSignedness_eq_ok_iff.mpr ⟨nonempty, uniform⟩⟩, rfl⟩

theorem distinct_ne_nil (nonempty : records ≠ []) : distinct records ≠ [] := by
  obtain ⟨record, others, rfl⟩ := List.exists_cons_of_ne_nil nonempty
  intro none
  have kept := declared?_distinct uniform record.value
  simp [none, declared?] at kept

/-- Records may be normalized before others are put behind them. -/
theorem distinct_append {later : List Record}
    (uniformLater : ∀ record ∈ later, record.signedness = signedness) :
    distinct (distinct records ++ later) = distinct (records ++ later) := by
  have whole : ∀ record ∈ records ++ later, record.signedness = signedness :=
    List.forall_mem_append.mpr ⟨uniform, uniformLater⟩
  have reduced : ∀ record ∈ distinct records ++ later, record.signedness = signedness :=
    List.forall_mem_append.mpr
      ⟨fun record member => uniform record (mem_of_mem_distinct member), uniformLater⟩
  refine (ascending_distinct reduced).ext (ascending_distinct whole) fun word => ?_
  have first := declared?_distinct uniform word
  rw [declared?_distinct reduced, declared?_distinct whole]
  simp only [declared?, List.find?_append] at first ⊢
  rw [first]

end

/-- What normalization leaves of records that agree on how they are read ascends strictly and holds,
for every word, the first declared record with this value and no other. To normalize again changes
nothing, also if other records are put behind in between. -/
theorem normalize_first_declared {signedness : Signedness} {records : List Record}
    (nonempty : records ≠ []) (uniform : ∀ record ∈ records, record.signedness = signedness)
    (typeName : String) : ∃ members, (normalize typeName records).outcome = .ok members ∧
      (members.Pairwise fun left right =>
        left.compareValue right = .lt ∧ left.number < right.number) ∧
      (∀ word, members.filter (·.value == word) = (records.find? (·.value == word)).toList) ∧
      (normalize typeName members).outcome = .ok members ∧
      ∀ later, (∀ record ∈ later, record.signedness = signedness) →
        (normalize typeName (records ++ later)).outcome =
          (normalize typeName (members ++ later)).outcome := by
  have ascends := ascending_distinct uniform
  have kept : ∀ record ∈ distinct records, record.signedness = signedness :=
    fun record member => uniform record (mem_of_mem_distinct member)
  have left := distinct_ne_nil uniform nonempty
  refine ⟨distinct records, normalize_uniform uniform typeName nonempty, ?_, ?_, ?_, ?_⟩
  · refine ascends.imp_of_mem fun {first second} l r less => ?_
    rw [compareValue, number, number, kept first l, kept second r, Signedness.compare_eq_lt]
    exact ⟨less, less⟩
  · intro word
    rw [ascends.filter_value, declared?_distinct uniform]
    rfl
  · rw [normalize_uniform kept typeName left, distinct_of_ascending kept ascends]
  · intro later uniformLater
    rw [normalize_uniform (List.forall_mem_append.mpr ⟨uniform, uniformLater⟩) typeName
        (by simp [nonempty]),
      normalize_uniform (List.forall_mem_append.mpr ⟨kept, uniformLater⟩) typeName (by simp [left]),
      distinct_append uniform uniformLater]

/-- Values on both sides of zero, one of them three times. -/
theorem normalize_first_declared_signed : ∃ members,
    (normalize "Level" [⟨"one", 1, .signed⟩, ⟨"minus", 0xffffffffffffffff, .signed⟩,
      ⟨"uno", 1, .signed⟩]).outcome = .ok members ∧
    members.filter (·.value == 1) = [⟨"one", 1, .signed⟩] ∧
    (normalize "Level" members).outcome = .ok members ∧
    (normalize "Level" ([⟨"one", 1, .signed⟩, ⟨"minus", 0xffffffffffffffff, .signed⟩,
      ⟨"uno", 1, .signed⟩] ++ [⟨"eins", 1, .signed⟩])).outcome =
      (normalize "Level" (members ++ [⟨"eins", 1, .signed⟩])).outcome := by
  have uniform : ∀ record ∈ [(⟨"one", 1, .signed⟩ : Record), ⟨"minus", 0xffffffffffffffff, .signed⟩,
      ⟨"uno", 1, .signed⟩], record.signedness = .signed := by simp
  obtain ⟨members, normal, _, first, again, behind⟩ :=
    normalize_first_declared (by simp) uniform "Level"
  exact ⟨members, normal, first 1, again, behind [⟨"eins", 1, .signed⟩] (by simp)⟩

end EnumNames.Record
