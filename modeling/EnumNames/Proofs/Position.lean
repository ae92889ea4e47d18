import EnumNames.Proofs.Run

/-! Membership and places in the runs of any list, in whatever order it comes. The words of a run
count up from the first modulo 2^64, so the place of a word is its distance from the first. The test
of the range agrees with this unless the run passes the end of the range of its type. Then the first
member stands for more than the last, and the test refuses every word. -/
namespace EnumNames.Run
open Record

/-- The members pass the greatest integer of their type. -/
def Wraps (run : Run) : Prop := run.signedness.read run.max < run.signedness.read run.min

instance : DecidablePred Wraps := fun _ => inferInstanceAs (Decidable (_ < _))

section
variable {records : List Record} {run : Run} (member : run ∈ split records)
include member

/-- The words of a run count up from the first. -/
theorem value_getElem {k : Nat} (bound : k < run.records.length) :
    run.records[k].value = run.min + .ofNat k := by
  induction k with
  | zero => simp [Run.min, Run.records]
  | succ k ih =>
    have next : run.records[k + 1].value = run.records[k].value + 1 :=
      List.isChain_iff_getElem.mp (isChain_records member) k bound
    rw [next, ih (Nat.lt_of_succ_lt bound), UInt64.ofNat_add, UInt64.add_assoc]
    rfl

/-- A run wraps only if its list is out of order. -/
theorem not_wraps_of_sorted
    (sorted : records.Pairwise fun left right => (left.compareValue right).isLE) : ¬ run.Wraps := by
  have inside := sorted.sublist (records_sublist member)
  rw [Wraps, Run.max, Run.min]
  cases last : run.others.getLast? with
  | none => simp
  | some record =>
    have later : record ∈ run.others := List.mem_of_getLast? last
    have ordered := Signedness.isLE_compare.mp (List.rel_of_pairwise_cons inside later)
    exact Int.not_lt.mpr ordered

variable (small : records.length < UInt64.size)
include small

theorem size_lt : run.size < UInt64.size :=
  (records_sublist member).length_le.trans_lt small

/-- A member has a word as its value exactly if its place is the distance of the word from the
first one. -/
theorem exists_getElem?_iff {word : UInt64} {k : Nat} :
    (∃ record, run.records[k]? = some record ∧ record.value = word) ↔
      k < run.size ∧ (word - run.min).toNat = k := by
  have whole := size_lt member small
  constructor
  · rintro ⟨record, found, rfl⟩
    obtain ⟨bound, rfl⟩ := List.getElem?_eq_some_iff.mp found
    refine ⟨bound, ?_⟩
    rw [value_getElem member bound, UInt64.add_comm, UInt64.add_sub_cancel]
    exact UInt64.toNat_ofNat_of_lt' (Nat.lt_trans bound whole)
  · rintro ⟨bound, rfl⟩
    refine ⟨_, List.getElem?_eq_getElem bound, ?_⟩
    rw [value_getElem member bound, UInt64.ofNat_toNat, UInt64.add_comm, UInt64.sub_add_cancel]

theorem toNat_max_sub_min : (run.max - run.min).toNat = run.size - 1 := by
  obtain ⟨last, found, same⟩ := run.max_eq
  exact ((exists_getElem?_iff member small).mp ⟨last, found, same.symm⟩).2

theorem nodup_values : (run.records.map Record.value).Nodup := by
  rw [List.Nodup, List.pairwise_map, List.pairwise_iff_getElem]
  intro i j boundI boundJ less same
  have left := (exists_getElem?_iff member small).mp ⟨_, List.getElem?_eq_getElem boundI, same⟩
  have right := (exists_getElem?_iff member small).mp ⟨_, List.getElem?_eq_getElem boundJ, rfl⟩
  omega

section
variable (ordered : ¬ run.Wraps)
include ordered

/-- The test of the range is a test of the distance from the first word. -/
theorem contains_iff_toNat_lt (word : UInt64) :
    run.contains word ↔ (word - run.min).toNat < run.size := by
  have ends : run.signedness.read run.min ≤ run.signedness.read run.max := Int.not_lt.mp ordered
  have length := Signedness.toNat_sub ends
  have size := toNat_max_sub_min member small
  have positive : 0 < run.size := Nat.succ_pos _
  have limit := run.signedness.read_lt run.max
  simp only [contains, Bool.and_eq_true, Signedness.isLE_compare]
  constructor
  · rintro ⟨lower, upper⟩
    have distance := Signedness.toNat_sub lower
    omega
  · intro near
    have lower : run.signedness.read run.min ≤ run.signedness.read word :=
      Signedness.read_le_read_iff.mpr (by omega)
    have distance := Signedness.toNat_sub lower
    exact ⟨lower, by omega⟩

theorem contains_iff_exists (word : UInt64) :
    run.contains word ↔ ∃ record ∈ run.records, record.value = word := by
  rw [contains_iff_toNat_lt member small ordered]
  constructor
  · intro near
    obtain ⟨record, found, same⟩ := (exists_getElem?_iff member small).mpr ⟨near, rfl⟩
    exact ⟨record, List.mem_of_getElem? found, same⟩
  · rintro ⟨record, inside, same⟩
    obtain ⟨k, found⟩ := List.getElem?_of_mem inside
    obtain ⟨bound, rfl⟩ := (exists_getElem?_iff member small).mp ⟨record, found, same⟩
    exact bound

theorem position?_eq_some_iff (word : UInt64) (k : Nat) :
    (run.position? word).map UInt64.toNat = some k ↔
      ∃ record, run.records[k]? = some record ∧ record.value = word := by
  have near := contains_iff_toNat_lt member small ordered word
  rw [exists_getElem?_iff member small, position?]
  split
  · rename_i inside
    simp only [Option.map_some, Option.some.injEq]
    exact ⟨fun same => ⟨same ▸ near.mp inside, same⟩, And.right⟩
  · rename_i outside
    simp only [Option.map_none, reduceCtorEq, false_iff]
    rintro ⟨bound, rfl⟩
    exact outside (near.mpr bound)

theorem position?_eq_none_iff_forall (word : UInt64) :
    run.position? word = none ↔ ∀ record ∈ run.records, record.value ≠ word := by
  have outside : run.position? word = none ↔ ¬ run.contains word := by simp [position?]
  rw [outside, contains_iff_exists member small ordered]
  simp

end
end

theorem contains_eq_false_of_wraps {run : Run} (wraps : run.Wraps) (word : UInt64) :
    run.contains word = false := by
  rw [Bool.eq_false_iff]
  simp only [ne_eq, contains, Bool.and_eq_true, Signedness.isLE_compare, not_and]
  intro lower upper
  exact absurd (Int.le_trans lower upper) (Int.not_le.mpr wraps)

/-- A word that passes the test of the range has a place, its distance from the first member as an
integer. -/
theorem position?_of_contains {run : Run} {word : UInt64} (inside : run.contains word) :
    ∃ place, run.position? word = some place ∧
      (place.toNat : Int) = run.signedness.read word - run.signedness.read run.min := by
  refine ⟨word - run.min, if_pos inside, ?_⟩
  simp only [contains, Bool.and_eq_true, Signedness.isLE_compare] at inside
  exact Signedness.toNat_sub inside.1

/-- In a run of any list that does not wrap, the words that pass the test of the range are the
values of the members, and the place of a word is that of the one member with this value. A run that
wraps contains no word. Only a list out of order has such runs. -/
theorem position?_split {records : List Record} (small : records.length < UInt64.size) {run : Run}
    (member : run ∈ split records) :
    (¬ run.Wraps → ∀ word,
      (run.contains word ↔ ∃ record ∈ run.records, record.value = word) ∧
      (∀ k, (run.position? word).map UInt64.toNat = some k ↔
        ∃ record, run.records[k]? = some record ∧ record.value = word) ∧
      (run.position? word = none ↔ ∀ record ∈ run.records, record.value ≠ word)) ∧
    (run.Wraps → ∀ word, run.contains word = false ∧ run.position? word = none) ∧
    (records.Pairwise (fun left right => (left.compareValue right).isLE) → ¬ run.Wraps) ∧
    (run.records.map Record.value).Nodup ∧
    run.records[run.size - 1]?.map Record.value = some run.max ∧
    ∀ word, run.contains word → ∃ place, run.position? word = some place ∧
      (place.toNat : Int) = run.signedness.read word - run.signedness.read run.min := by
  refine ⟨fun ordered word => ⟨contains_iff_exists member small ordered word,
      position?_eq_some_iff member small ordered word,
      position?_eq_none_iff_forall member small ordered word⟩,
    fun wraps word => ?_, not_wraps_of_sorted member, nodup_values member small, ?_,
    fun word => position?_of_contains⟩
  · have outside := contains_eq_false_of_wraps wraps word
    exact ⟨outside, if_neg (Bool.eq_false_iff.mp outside)⟩
  · obtain ⟨last, found, same⟩ := run.max_eq
    rw [found, same]
    rfl

/-- A run from the greatest integer on to the least one, and a run across zero. -/
theorem position?_split_unsorted :
    (∀ word, (Run.mk ⟨"high", 0x7fffffffffffffff, .signed⟩
      [⟨"low", 0x8000000000000000, .signed⟩]).position? word = none) ∧
    ((Run.mk ⟨"minus", 0xffffffffffffffff, .signed⟩ [⟨"nul", 0, .signed⟩]).position? 0).map
      UInt64.toNat = some 1 ∧
    (Run.mk ⟨"minus", 0xffffffffffffffff, .signed⟩ [⟨"nul", 0, .signed⟩]).position? 1 = none := by
  have cut : split [⟨"high", 0x7fffffffffffffff, .signed⟩, ⟨"low", 0x8000000000000000, .signed⟩,
      ⟨"minus", 0xffffffffffffffff, .signed⟩, ⟨"nul", 0, .signed⟩] =
    [⟨⟨"high", 0x7fffffffffffffff, .signed⟩, [⟨"low", 0x8000000000000000, .signed⟩]⟩,
      ⟨⟨"minus", 0xffffffffffffffff, .signed⟩, [⟨"nul", 0, .signed⟩]⟩] := by cbv
  have wrapped := (position?_split (by decide) (cut ▸ List.mem_cons_self)).2.1 (by decide)
  have crossing := (position?_split (by decide)
    (cut ▸ List.mem_cons_of_mem _ List.mem_cons_self)).1 (by decide)
  exact ⟨fun word => (wrapped word).2, ((crossing 0).2.1 1).mpr ⟨⟨"nul", 0, .signed⟩, rfl, rfl⟩,
    (crossing 1).2.2.mpr (by simp [Run.records])⟩

end EnumNames.Run
