import EnumNames.Proofs.Tables

/-! Names packed in order and read back by place. Each offset is the length of the names in front of
it, unchanged by the narrow words that store it, and every place that has a member gives its name. -/
namespace EnumNames.NameTable
open Record

section
variable {records : List Record} {table : NameTable} (built : build records = .ok table)
include built

/-- The offsets are the lengths of the beginnings of the list of names. -/
theorem toList_offsets : table.offsets.toList =
    (List.range (records.length + 1)).map fun k => (joined (records.take k)).utf8ByteSize := by
  obtain ⟨_, _, listed⟩ := build_eq_ok built
  simp only [listed, boundaries_eq, List.length_map, joined, List.map_take]

theorem get?_offsets (index : UInt64) : table.offsets.get? index =
    if index.toNat ≤ records.length then
      some (joined (records.take index.toNat)).utf8ByteSize
    else none := by
  obtain ⟨_, _, listed⟩ := build_eq_ok built
  rw [OffsetTable.get?_eq, listed, getElem?_boundaries, List.length_map, joined, List.map_take]

variable (count : records.length + 1 < UInt64.size)
include count

/-- The index behind one that has an offset does not wrap. -/
theorem toNat_add_one_of_get? {index : UInt64} {start : Nat}
    (found : table.offsets.get? index = some start) : (index + 1).toNat = index.toNat + 1 := by
  have bound : index.toNat ≤ records.length := by
    rw [get?_offsets built] at found
    exact (Option.ite_none_right_eq_some.mp found).1
  rw [UInt64.toNat_add, UInt64.toNat_one]
  exact Nat.mod_eq_of_lt (by simp only [UInt64.size] at count; omega)

/-- A place gives the name of its member, if it has one. -/
theorem name?_eq_getElem? (index : UInt64) :
    table.name? index = records[index.toNat]?.map Record.name := by
  cases member : records[index.toNat]? with
  | some record => exact name?_build built (Nat.lt_of_succ_lt count) member
  | none =>
    have beyond := List.getElem?_eq_none_iff.mp member
    cases first : table.offsets.get? index with
    | none => simp [name?, first]
    | some start =>
      have next := toNat_add_one_of_get? built count first
      have last : table.offsets.get? (index + 1) = none := by
        rw [get?_offsets built, if_neg (by omega)]
      simp [name?, first, last]

/-- Neighbouring offsets are boundaries of characters, in order. -/
theorem exists_between?_of_get? {index : UInt64} {start stop : Nat}
    (first : table.offsets.get? index = some start)
    (last : table.offsets.get? (index + 1) = some stop) :
    ∃ name, Text.between? table.blob start stop = some name := by
  have next := toNat_add_one_of_get? built count first
  have bound : index.toNat < records.length := by
    rw [get?_offsets built] at last
    have atMost := (Option.ite_none_right_eq_some.mp last).1
    omega
  have name := name?_eq_getElem? built count index
  rw [List.getElem?_eq_getElem bound, Option.map_some] at name
  simp only [name?, first, last, Option.bind_eq_bind, Option.bind_some] at name
  exact ⟨_, name⟩

end

/-- Names that offsets can reach and that an index can count are packed one after the other. Each
comes back at its place, and nothing at any other. The offsets, read at once or one by one, are the
lengths of the beginnings of the text that end between two names; the index behind an offset does not
wrap, and no name is cut inside a character. -/
theorem name?_build_eq {records : List Record} (count : records.length + 1 < UInt64.size)
    (bytes : (joined records).utf8ByteSize < 0x100000000) :
    ∃ table, build records = .ok table ∧ table.blob = joined records ∧
      (∀ index, table.name? index = records[index.toNat]?.map Record.name) ∧
      table.offsets.toList = (List.range (records.length + 1)).map
        (fun k => (joined (records.take k)).utf8ByteSize) ∧
      (∀ index, table.offsets.get? index = if index.toNat ≤ records.length then
        some (joined (records.take index.toNat)).utf8ByteSize else none) ∧
      ∀ index start, table.offsets.get? index = some start →
        (index + 1).toNat = index.toNat + 1 ∧
        ∀ stop, table.offsets.get? (index + 1) = some stop →
          ∃ name, Text.between? table.blob start stop = some name := by
  obtain ⟨table, built⟩ := build_succeeds bytes
  exact ⟨table, built, (build_eq_ok built).1, name?_eq_getElem? built count,
    toList_offsets built, get?_offsets built, fun _ _ first =>
      ⟨toNat_add_one_of_get? built count first, fun _ => exists_between?_of_get? built count first⟩⟩

/-- Names of which one fills a byte offset and the next, behind an empty one, no longer does. -/
theorem name?_build_eq_widened : ∃ table,
    build [⟨.ofList (List.replicate 255 'x'), 0, .signed⟩, ⟨"", 1, .signed⟩, ⟨"ß", 2, .signed⟩] =
      .ok table ∧
    table.offsets.toList = [0, 255, 255, 257] ∧ table.name? 1 = some "" ∧
    table.name? 2 = some "ß" ∧ table.name? 3 = none ∧ table.name? 0xffffffffffffffff = none := by
  have bytes : (joined [⟨.ofList (List.replicate 255 'x'), 0, .signed⟩, ⟨"", 1, .signed⟩,
      ⟨"ß", 2, .signed⟩]).utf8ByteSize < 0x100000000 := by decide +kernel
  obtain ⟨table, built, _, name, offsets, _⟩ := name?_build_eq (by decide) bytes
  exact ⟨table, built, offsets.trans (by decide +kernel), name 1, name 2, name 3, name _⟩

end EnumNames.NameTable
