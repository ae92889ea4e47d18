import EnumNames.Proofs.Run
import Mathlib

/-! Runs as a partition. Any other way to cut a list into segments of consecutive values takes more
segments, and the runs of normalized records lie apart: the successor of what ends a run is missing,
also as an integer. -/
namespace EnumNames.Run
open Record

/-- A cut of a list into segments with at least one record each, in which every value follows the
one before it. -/
structure Divides (segments : List (List Record)) (records : List Record) : Prop where
  whole : segments.flatten = records
  nonempty : [] ∉ segments
  follow : ∀ segment ∈ segments, segment.IsChain fun left right => right.value = left.value + 1

theorem divides_split (records : List Record) :
    Divides ((split records).map Run.records) records := by
  refine ⟨flatMap_records_split records, by simp, ?_⟩
  intro segment member
  obtain ⟨run, inside, rfl⟩ := List.mem_map.mp member
  exact isChain_records inside

section
variable {α : Type} {r : α → α → Bool}

/-- A chain in front of a list whose first element continues it becomes part of the first group. -/
theorem splitBy_append_of_rel {list rest : List α} (chain : list.IsChain (r · ·)) {last first : α}
    (ends : last ∈ list.getLast?) (starts : first ∈ rest.head?) (joined : r last first = true) :
    ∃ group groups, rest.splitBy r = group :: groups ∧
      (list ++ rest).splitBy r = (list ++ group) :: groups := by
  have present : rest ≠ [] := List.ne_nil_of_mem (List.mem_of_mem_head? starts)
  obtain ⟨group, groups, split⟩ := List.exists_cons_of_ne_nil (List.splitBy_ne_nil.mpr present)
  obtain ⟨whole, full, chains, breaks⟩ := List.splitBy_eq_iff.mp split
  obtain ⟨empty, others⟩ := not_or.mp (List.mem_cons.not.mp full)
  obtain ⟨own, later⟩ := List.forall_mem_cons.mp chains
  obtain ⟨next, rest⟩ := List.isChain_cons.mp breaks
  refine ⟨group, groups, split, List.splitBy_eq_iff.mpr ⟨?_, ?_, ?_, ?_⟩⟩
  · rw [whole, List.flatten_cons, List.flatten_cons, List.append_assoc]
  · rw [List.mem_cons, not_or]
    exact ⟨fun none => empty (List.append_eq_nil_iff.mp none.symm).2.symm, others⟩
  · refine List.forall_mem_cons.mpr ⟨List.isChain_append.mpr ⟨chain, own, ?_⟩, later⟩
    intro x atEnd y atStart
    rw [whole, List.flatten_cons, List.head?_append_of_ne_nil _ (Ne.symm empty)] at starts
    rwa [Option.mem_unique atEnd ends, Option.mem_unique atStart starts]
  · refine List.isChain_cons.mpr ⟨?_, rest⟩
    intro other head
    obtain ⟨left, right, apart⟩ := next other head
    refine ⟨by simp [left], right, ?_⟩
    rwa [List.getLast_append_of_right_ne_nil _ _ left]

/-- Chains one after the other are the groups of the list or are more than the groups. -/
theorem splitBy_flatten_cases {parts : List (List α)} (full : [] ∉ parts)
    (chains : ∀ part ∈ parts, part.IsChain (r · ·)) :
    parts.flatten.splitBy r = parts ∨ (parts.flatten.splitBy r).length < parts.length := by
  induction parts with
  | nil => exact .inl rfl
  | cons part parts ih =>
    obtain ⟨present, others⟩ := not_or.mp (List.mem_cons.not.mp full)
    obtain ⟨own, later⟩ := List.forall_mem_cons.mp chains
    have rest := ih others later
    rw [List.flatten_cons]
    by_cases joined : ∃ last ∈ part.getLast?, ∃ first ∈ parts.flatten.head?, r last first = true
    · obtain ⟨last, ends, first, starts, joined⟩ := joined
      obtain ⟨group, groups, split, whole⟩ := splitBy_append_of_rel own ends starts joined
      rw [split] at rest
      have fewer : (group :: groups).length ≤ parts.length := by
        rcases rest with same | less
        · rw [same]
        · exact Nat.le_of_lt less
      rw [whole]
      exact .inr (Nat.lt_succ_of_le fewer)
    · have apart : ∀ last ∈ part.getLast?, ∀ first ∈ parts.flatten.head?, r last first = false := by
        intro last ends first starts
        exact Bool.eq_false_iff.mpr fun rel => joined ⟨last, ends, first, starts, rel⟩
      rw [List.splitBy_append apart, List.splitBy_of_isChain (Ne.symm present) own]
      rcases rest with same | less
      · exact .inl (by rw [same, List.singleton_append])
      · exact .inr (Nat.succ_lt_succ less)

end

/-- A cut is made of the runs, or it has more segments than there are runs. -/
theorem Divides.cases {segments : List (List Record)} {records : List Record}
    (divides : Divides segments records) :
    (split records).map Run.records = segments ∨ (split records).length < segments.length := by
  have count : (split records).length = (records.splitBy follows).length := by
    rw [← map_records_split, List.length_map]
  rw [count, map_records_split, ← divides.whole]
  exact splitBy_flatten_cases divides.nonempty (by simpa [follows] using divides.follow)

theorem value_getLast_records (run : Run) :
    (run.records.getLast run.records_ne_nil).value = run.max := by
  have last := (List.getLast?_eq_some_getLast run.records_ne_nil).symm.trans List.getLast?_cons
  rw [Option.some.inj last, max]

/-- The value that begins a run does not follow the one that ends the run before. -/
theorem isChain_min_ne (records : List Record) :
    (split records).IsChain fun left right => right.min ≠ left.max + 1 := by
  have breaks := List.isChain_getLast_head_splitBy follows records
  rw [← map_records_split, List.isChain_map] at breaks
  refine breaks.imp ?_
  rintro left right ⟨_, _, apart⟩ next
  rw [follows, value_getLast_records] at apart
  simp [Run.records, ← next, Run.min] at apart

/-- The values of a run lie between those of its first and its last member. -/
theorem Consecutive.bounds {signedness : Signedness} {run : Run}
    (consecutive : run.Consecutive signedness) {record : Record} (member : record ∈ run.records) :
    signedness.read run.min ≤ signedness.read record.value ∧
      signedness.read record.value ≤ signedness.read run.max := by
  obtain ⟨k, bound, rfl⟩ := List.getElem_of_mem member
  have number := consecutive.counts (List.getElem?_eq_getElem bound)
  have last := consecutive.read_max
  change k < run.size at bound
  omega

/-- Between neighbouring runs of ascending records an integer is missing. -/
theorem isChain_apart {signedness : Signedness} {records : List Record}
    (ascends : Ascending signedness records) : (split records).IsChain fun left right =>
      signedness.read left.max + 1 < signedness.read right.min := by
  rw [List.isChain_iff_getElem]
  intro i bound
  have ordered := flatMap_records_split records ▸ ascends
  have later := List.pairwise_iff_getElem.mp (List.pairwise_flatMap.mp ordered).2 i (i + 1)
    (Nat.lt_of_succ_lt bound) bound (Nat.lt_succ_self i)
  have less := later _ (List.getLast_mem (split records)[i].records_ne_nil) _ List.mem_cons_self
  rw [value_getLast_records] at less
  change signedness.read _ < signedness.read (split records)[i + 1].min at less
  have differ : signedness.read (split records)[i + 1].min ≠
      signedness.read (split records)[i].max + 1 := by
    intro next
    exact List.isChain_iff_getElem.mp (isChain_min_ne records) i bound
      (Signedness.read_succ_iff.mp next).1
  omega

/-- The members of a run stand for consecutive integers, one after the other. -/
theorem Consecutive.isChain_number {signedness : Signedness} {run : Run}
    (consecutive : run.Consecutive signedness) :
    run.records.IsChain fun left right => right.number = left.number + 1 := by
  rw [List.isChain_iff_getElem]
  intro k bound
  have lower := consecutive.counts (List.getElem?_eq_getElem (Nat.lt_of_succ_lt bound))
  have upper := consecutive.counts (List.getElem?_eq_getElem bound)
  rw [number, number, consecutive.uniform _ (List.getElem_mem _),
    consecutive.uniform _ (List.getElem_mem _)]
  omega

/-- Cutting into runs is the one way to cut a list into the least number of segments of consecutive
values, and no value at the beginning of a run follows the value in front of it. In normalized
records no run wraps around, and an integer is missing between each run and the next. -/
theorem split_least (records : List Record) :
    Divides ((split records).map Run.records) records ∧
      ((split records).IsChain fun left right => right.min ≠ left.max + 1) ∧
      (∀ segments, Divides segments records → (split records).length ≤ segments.length ∧
        (segments.length = (split records).length →
          segments = (split records).map Run.records)) ∧
      ∀ typeName declared, (normalize typeName declared).outcome = .ok records →
        (∀ run ∈ split records,
          (run.records.IsChain fun left right => right.number = left.number + 1) ∧
          ∀ record ∈ run.records, run.signedness.read run.min ≤ record.number ∧
            record.number ≤ run.signedness.read run.max) ∧
        (split records).IsChain fun left right =>
          left.signedness.read left.max + 1 < right.signedness.read right.min := by
  refine ⟨divides_split records, isChain_min_ne records, ?_, ?_⟩
  · intro segments divides
    rcases divides.cases with same | more
    · rw [← same, List.length_map]
      exact ⟨Nat.le_refl _, fun _ => rfl⟩
    · exact ⟨Nat.le_of_lt more, fun equal => absurd equal (Nat.ne_of_gt more)⟩
  · intro typeName declared normal
    obtain ⟨⟨signedness, common⟩, rfl⟩ := normalize_eq_ok_iff.mp normal
    obtain ⟨_, uniform⟩ := commonSignedness_eq_ok_iff.mp common
    have ascends := ascending_distinct uniform
    have consecutive : ∀ run ∈ split (distinct declared), run.Consecutive signedness :=
      fun run member => consecutive_of_mem
        (fun record inside => uniform record (mem_of_mem_distinct inside)) ascends member
    refine ⟨fun run member => ⟨(consecutive run member).isChain_number, ?_⟩, ?_⟩
    · intro record inside
      rw [number, (consecutive run member).agrees, (consecutive run member).uniform record inside]
      exact (consecutive run member).bounds inside
    · have apart := isChain_apart ascends
      rw [List.isChain_iff_getElem] at apart ⊢
      intro i bound
      rw [(consecutive _ (List.getElem_mem _)).agrees, (consecutive _ (List.getElem_mem _)).agrees]
      exact apart i bound

/-- A run across zero and two at the ends of the range, where the least integer follows the greatest
only as a word. -/
theorem split_least_extremes :
    Divides [[⟨"low", 0x8000000000000000, .signed⟩], [⟨"minus", 0xffffffffffffffff, .signed⟩],
        [⟨"nul", 0, .signed⟩], [⟨"high", 0x7fffffffffffffff, .signed⟩]]
      [⟨"low", 0x8000000000000000, .signed⟩, ⟨"minus", 0xffffffffffffffff, .signed⟩,
        ⟨"nul", 0, .signed⟩, ⟨"high", 0x7fffffffffffffff, .signed⟩] ∧
    (split [⟨"low", 0x8000000000000000, .signed⟩, ⟨"minus", 0xffffffffffffffff, .signed⟩,
        ⟨"nul", 0, .signed⟩, ⟨"high", 0x7fffffffffffffff, .signed⟩]).length ≤ 4 ∧
    (split [⟨"low", 0x8000000000000000, .signed⟩, ⟨"minus", 0xffffffffffffffff, .signed⟩,
        ⟨"nul", 0, .signed⟩, ⟨"high", 0x7fffffffffffffff, .signed⟩]).IsChain fun left right =>
      left.signedness.read left.max + 1 < right.signedness.read right.min := by
  have normal : (normalize "Level" [⟨"nul", 0, .signed⟩, ⟨"high", 0x7fffffffffffffff, .signed⟩,
      ⟨"low", 0x8000000000000000, .signed⟩, ⟨"minus", 0xffffffffffffffff, .signed⟩]).outcome =
    .ok [⟨"low", 0x8000000000000000, .signed⟩, ⟨"minus", 0xffffffffffffffff, .signed⟩,
      ⟨"nul", 0, .signed⟩, ⟨"high", 0x7fffffffffffffff, .signed⟩] := by cbv
  have divides : Divides [[⟨"low", 0x8000000000000000, .signed⟩],
      [⟨"minus", 0xffffffffffffffff, .signed⟩], [⟨"nul", 0, .signed⟩],
      [⟨"high", 0x7fffffffffffffff, .signed⟩]]
      [⟨"low", 0x8000000000000000, .signed⟩, ⟨"minus", 0xffffffffffffffff, .signed⟩,
        ⟨"nul", 0, .signed⟩, ⟨"high", 0x7fffffffffffffff, .signed⟩] :=
    ⟨rfl, by simp, by simp⟩
  obtain ⟨_, _, least, apart⟩ := split_least [⟨"low", 0x8000000000000000, .signed⟩,
    ⟨"minus", 0xffffffffffffffff, .signed⟩, ⟨"nul", 0, .signed⟩,
    ⟨"high", 0x7fffffffffffffff, .signed⟩]
  exact ⟨divides, (least _ divides).1, (apart _ _ normal).2⟩

end EnumNames.Run
