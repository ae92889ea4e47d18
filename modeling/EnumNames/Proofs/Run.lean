import EnumNames.Run
import EnumNames.Proofs.Normal

/-! Runs of strictly ascending records. Cutting loses nothing, the members of a run stand for
consecutive integers, and a word lies in a run exactly when it is the value of a member, whose
place is the distance from the first. -/
namespace EnumNames.Run
open Record

theorem map_records_split (records : List Record) :
    (split records).map Run.records = records.splitBy follows := by
  have inverse : ∀ groups : List (List Record), [] ∉ groups →
      (groups.filterMap ofList?).map Run.records = groups := by
    intro groups full
    induction groups with
    | nil => rfl
    | cons group groups ih =>
      rw [List.mem_cons, not_or] at full
      obtain ⟨first, others, rfl⟩ := List.exists_cons_of_ne_nil (Ne.symm full.1)
      simp only [List.filterMap_cons, ofList?, List.map_cons, ih full.2]
      rfl
  exact inverse _ (List.nil_notMem_splitBy _ _)

theorem flatMap_records_split (records : List Record) :
    (split records).flatMap Run.records = records := by
  rw [List.flatMap_def, map_records_split, List.flatten_splitBy]

theorem split_ne_nil {records : List Record} (nonempty : records ≠ []) : split records ≠ [] := by
  intro none
  have whole := flatMap_records_split records
  rw [none] at whole
  exact nonempty whole.symm

theorem records_mem_splitBy {records : List Record} {run : Run} (member : run ∈ split records) :
    run.records ∈ records.splitBy follows := by
  rw [← map_records_split]
  exact List.mem_map_of_mem member

theorem records_sublist {records : List Record} {run : Run} (member : run ∈ split records) :
    run.records.Sublist records := by
  have part := List.sublist_flatten_of_mem (records_mem_splitBy member)
  rwa [List.flatten_splitBy] at part

/-- Each member follows the one before it. -/
theorem isChain_records {records : List Record} {run : Run} (member : run ∈ split records) :
    run.records.IsChain fun left right => right.value = left.value + 1 := by
  simpa [follows] using List.isChain_of_mem_splitBy (records_mem_splitBy member)

/-- Records that follow one another are one run. -/
theorem split_of_isChain {records : List Record} (nonempty : records ≠ [])
    (chain : records.IsChain fun left right => right.value = left.value + 1) :
    ∃ run, split records = [run] ∧ run.records = records := by
  obtain ⟨first, others, rfl⟩ := List.exists_cons_of_ne_nil nonempty
  have whole : (first :: others).splitBy follows = [first :: others] :=
    List.splitBy_of_isChain nonempty (by simpa [follows] using chain)
  refine ⟨⟨first, others⟩, ?_, rfl⟩
  rw [split, whole]
  rfl

theorem max_eq (run : Run) :
    ∃ last, run.records[run.size - 1]? = some last ∧ run.max = last.value := by
  refine ⟨run.others.getLast?.getD run.first, ?_, rfl⟩
  rw [size, ← List.getLast?_eq_getElem?, records, List.getLast?_cons]

/-- The members of a run stand for consecutive integers, from the first on. -/
structure Consecutive (signedness : Signedness) (run : Run) : Prop where
  uniform : ∀ record ∈ run.records, record.signedness = signedness
  counts : ∀ {k : Nat} {record : Record}, run.records[k]? = some record →
    signedness.read record.value = signedness.read run.min + k

theorem consecutive_of_mem {signedness : Signedness} {records : List Record}
    (uniform : ∀ record ∈ records, record.signedness = signedness)
    (ascends : Ascending signedness records) {run : Run} (member : run ∈ split records) :
    run.Consecutive signedness := by
  have part := records_sublist member
  have inside : Ascending signedness run.records := ascends.sublist part
  have chain := isChain_records member
  refine ⟨fun record inside => uniform record (part.subset inside), ?_⟩
  intro k
  induction k with
  | zero =>
    rintro record ⟨⟩
    simp [Run.min]
  | succ k ih =>
    intro record found
    obtain ⟨bound, rfl⟩ := List.getElem?_eq_some_iff.mp found
    have before := ih (List.getElem?_eq_getElem (by omega))
    have next : run.records[k + 1].value = run.records[k].value + 1 :=
      List.isChain_iff_getElem.mp chain k bound
    have less := List.pairwise_iff_getElem.mp inside k (k + 1) (by omega) bound (by omega)
    rw [Signedness.read_succ_iff.mpr ⟨next, less⟩, before]
    omega

namespace Consecutive
variable {signedness : Signedness} {run : Run} (consecutive : run.Consecutive signedness)
include consecutive

theorem agrees : run.signedness = signedness := consecutive.uniform _ List.mem_cons_self

theorem ascending : Ascending signedness run.records := by
  rw [Ascending, List.pairwise_iff_getElem]
  intro i j boundI boundJ less
  have lower := consecutive.counts (List.getElem?_eq_getElem boundI)
  have upper := consecutive.counts (List.getElem?_eq_getElem boundJ)
  omega

theorem read_max : signedness.read run.max = signedness.read run.min + (run.size - 1 : Nat) := by
  obtain ⟨last, found, same⟩ := run.max_eq
  rw [same, consecutive.counts found]

theorem contains_iff {word : UInt64} : run.contains word ↔
    signedness.read run.min ≤ signedness.read word ∧
      signedness.read word < signedness.read run.min + run.size := by
  have positive : 0 < run.size := Nat.succ_pos _
  simp only [contains, consecutive.agrees, Bool.and_eq_true, Signedness.isLE_compare,
    consecutive.read_max]
  omega

/-- A word in the run is the value of the member at its place. -/
theorem position?_eq_some {word place : UInt64} (found : run.position? word = some place) :
    ∃ record, run.records[place.toNat]? = some record ∧ record.value = word := by
  unfold position? at found
  split at found
  · rename_i inside
    obtain ⟨lower, upper⟩ := consecutive.contains_iff.mp inside
    have distance := Signedness.toNat_sub lower
    rw [Option.some.injEq] at found
    rw [found] at distance
    have bound : place.toNat < run.records.length := by
      change place.toNat < run.size
      omega
    have member := List.getElem?_eq_getElem bound
    refine ⟨_, member, ?_⟩
    have number := consecutive.counts member
    apply signedness.read_injective
    omega
  · cases found

theorem position?_eq_none_iff {word : UInt64} :
    run.position? word = none ↔ ∀ record ∈ run.records, record.value ≠ word := by
  constructor
  · intro outside record member same
    obtain ⟨k, bound, rfl⟩ := List.getElem_of_mem member
    have number := consecutive.counts (List.getElem?_eq_getElem bound)
    have inside : run.contains word := by
      rw [consecutive.contains_iff, ← same, number]
      change k < run.size at bound
      omega
    simp [position?, inside] at outside
  · intro different
    cases found : run.position? word with
    | none => rfl
    | some place =>
      obtain ⟨record, at_place, same⟩ := consecutive.position?_eq_some found
      exact absurd same (different record (List.mem_of_getElem? at_place))

/-- A word is the value of the member at its distance from the first, or of none. -/
theorem declared?_cases (word : UInt64) :
    (∃ (place : Nat) (record : Record), run.records[place]? = some record ∧
      declared? run.records word = some record ∧
      signedness.read word = signedness.read run.min + place) ∨
    (declared? run.records word = none ∧
      ¬ (signedness.read run.min ≤ signedness.read word ∧
        signedness.read word < signedness.read run.min + run.size)) := by
  cases found : run.position? word with
  | some place =>
    obtain ⟨record, atPlace, same⟩ := consecutive.position?_eq_some found
    refine .inl ⟨place.toNat, record, atPlace, ?_, same ▸ consecutive.counts atPlace⟩
    exact (declared?_eq_some_iff consecutive.ascending.values_nodup).mpr
      ⟨List.mem_of_getElem? atPlace, same⟩
  | none =>
    refine .inr ⟨declared?_eq_none_iff.mpr (consecutive.position?_eq_none_iff.mp found), ?_⟩
    intro inside
    rw [position?, if_pos (consecutive.contains_iff.mpr inside)] at found
    cases found

end Consecutive

/-- No value lies in two runs. -/
theorem value_ne_of_apart {signedness : Signedness} {before after : List Run} {run other : Run}
    (ascends : Ascending signedness ((before ++ run :: after).flatMap records))
    (apart : other ∈ before ++ after) {left right : Record} (l : left ∈ run.records)
    (r : right ∈ other.records) : left.value ≠ right.value := by
  have perm : (before ++ run :: after).Perm (run :: (before ++ after)) := List.perm_middle
  have nodup := ((perm.flatMap_right records).map Record.value).nodup_iff.mp ascends.values_nodup
  rw [List.flatMap_cons, List.map_append] at nodup
  have there : right ∈ (before ++ after).flatMap records := List.mem_flatMap.mpr ⟨other, apart, r⟩
  intro same
  exact List.disjoint_of_nodup_append nodup (List.mem_map_of_mem l)
    (same ▸ List.mem_map_of_mem there)

/-- A run is determined by its first word and the names of its members. -/
theorem eq_of_names {signedness : Signedness} {left right : Run}
    (consecutiveLeft : left.Consecutive signedness) (consecutiveRight : right.Consecutive signedness)
    (first : left.min = right.min)
    (names : left.records.map Record.name = right.records.map Record.name) : left = right := by
  have records : left.records = right.records := by
    refine List.ext_getElem (by simpa using congrArg List.length names) ?_
    intro k l r
    have leftFound := List.getElem?_eq_getElem l
    have rightFound := List.getElem?_eq_getElem r
    have name : left.records[k].name = right.records[k].name := by
      have same := congrArg (·[k]?) names
      simpa [leftFound, rightFound] using same
    have value : left.records[k].value = right.records[k].value := by
      apply signedness.read_injective
      rw [consecutiveLeft.counts leftFound, consecutiveRight.counts rightFound, first]
    have kind := (consecutiveLeft.uniform _ (List.getElem_mem l)).trans
      (consecutiveRight.uniform _ (List.getElem_mem r)).symm
    cases leftRecord : left.records[k]
    cases rightRecord : right.records[k]
    simp_all
  cases left
  cases right
  simpa [Run.records] using records

end EnumNames.Run
