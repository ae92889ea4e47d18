import EnumNames.Proofs.Go.Agreement
import EnumNames.Proofs.Go.Lines
import EnumNames.Proofs.Go.NormalForm
import EnumNames.Proofs.Go.SectionReading

/-! What is written for a compiled descriptor is a Go program that names values as the descriptor
does, whatever the type and the layout. -/
namespace EnumNames

namespace Go

/-- Whether items are accepted with a type, and the method of the type agrees with a descriptor
wherever the type has a value. -/
def Agrees (type : IntType) (descriptor : Descriptor) (items : List Item) : Prop :=
  accepts type items ∧ ∀ word, type.holds (descriptor.signedness.read word) →
    callString type items (descriptor.signedness.read word) =
      .ok (descriptor.render word).toByteArray

theorem agrees_normal {type : IntType} {descriptor : Descriptor} {items : List Item} :
    Agrees type descriptor (items.map Item.normal) ↔ Agrees type descriptor items := by
  simp only [Agrees, accepts_normal, callString_normal]

section Compiled
variable {type : IntType} {typeName : String} {records : List Record} {descriptor : Descriptor}
  {items : List Item} (compiled : Descriptor.Compiled typeName records descriptor)
include compiled

/-- What is written for a compiled descriptor is read back as its section. -/
theorem read?_writeSection {alphabet : Alphabet} (named : alphabet.IsName typeName) :
    ∃ text items, writeSection descriptor .unbounded = .ok ⟨text, none⟩ ∧
      read? alphabet text = some (items.map Item.normal) ∧ Written descriptor items := by
  obtain ⟨items, found, written⟩ := compiled.written
  rw [← compiled.typeName_eq] at named
  exact ⟨_, items, writeSection_unbounded found, written.read? named, written⟩

/-- What is found among the members is what the descriptor says. -/
theorem answer_eq (counted : ∀ run ∈ descriptor.runs, IntType.int.holds run.size) (word : UInt64) :
    answer descriptor word (Record.declared? (descriptor.runs.flatMap Run.records) word) =
      (descriptor.render word).toByteArray := by
  have size : ∀ run ∈ descriptor.runs, run.size < UInt64.size := by
    intro run member
    have bound := IntType.holds_nat.mp (counted run member)
    have greatest : IntType.int.greatest = 0x7fffffffffffffff := by decide
    simp only [UInt64.size]
    omega
  have searched : descriptor.lookup? word =
      (Record.declared? (descriptor.runs.flatMap Run.records) word).map Record.name := by
    rw [compiled.lookup?_of_sizes size, compiled.members_eq,
      Record.declared?_distinct compiled.uniform]
  rw [answer, ← searched]
  rfl

/-- A map agrees with its descriptor if its type holds the keys. -/
theorem agrees_sparseMap (covers : type.Covers descriptor) (free : type.name ∉ reserved)
    (counted : ∀ run ∈ descriptor.runs, IntType.int.holds run.size) {table : SpanTable}
    (built : SpanTable.build descriptor.runs = .ok table) :
    Agrees type descriptor (sparseMap descriptor table) := by
  refine ⟨accepts_sparseMap covers compiled.ascending free built, fun word _ => ?_⟩
  rw [callString_sparseMap covers free built compiled.ascending, answer_eq compiled counted]

/-- Every section agrees with its descriptor wherever its type carries the members. -/
theorem Written.agrees (written : Written descriptor items) (carries : type.Carries descriptor)
    (free : type.name ∉ reserved) : Agrees type descriptor items := by
  cases written with
  | @oneRun run _ runs built =>
    have member : run ∈ descriptor.runs := runs ▸ List.mem_cons_self
    constructor
    · rw [accepts_oneRun carries.toCovers member (carries.lengths run member) free built]
      exact carries.sizes run member
    · intro word inside
      rw [callString_oneRun carries member free built (compiled.consecutive run member) inside,
        ← answer_eq compiled carries.lengths, runs]
      simp
  | multiRun built =>
    refine ⟨accepts_multiRun carries free built.length_eq, fun word inside => ?_⟩
    rw [callString_multiRun carries free built compiled.consecutive inside,
      answer_eq compiled carries.lengths]
  | sparseMap built => exact agrees_sparseMap compiled carries.toCovers free carries.lengths built

end Compiled

end Go

namespace Descriptor
open Go

/-- A type of 64 bits holds every number that a word stands for. -/
theorem holds_read (typeName : String) (signedness : Signedness) (word : UInt64) :
    (IntType.declared typeName signedness 64).holds (signedness.read word) := by
  have lower := signedness.least_le_read word
  have upper := signedness.read_lt word
  have least : (IntType.declared typeName signedness 64).least = signedness.least := by
    cases signedness <;> rfl
  have half : (IntType.declared typeName signedness 64).half = 0x8000000000000000 := rfl
  rw [IntType.holds_iff, IntType.greatest, half, least]
  omega

/-- A type of 64 bits carries whatever compiles. -/
theorem Compiled.carries {typeName : String} {records : List Record} {descriptor : Descriptor}
    (compiled : Compiled typeName records descriptor)
    (size : records.length < 0x8000000000000000) :
    (IntType.declared typeName descriptor.signedness 64).Carries descriptor := by
  have count {type : IntType} (half : type.half = 0x8000000000000000) {run : Run}
      (member : run ∈ descriptor.runs) : type.holds run.size := by
    have bound := compiled.size_le run member
    have least := type.least_cases
    rw [IntType.holds_nat, IntType.greatest]
    omega
  exact ⟨⟨compiled.typeName_eq.symm, rfl, rfl, fun run _ record _ => holds_read _ _ record.value⟩,
    fun run member => count rfl member, fun run member => count rfl member⟩

/-- Reading the text of a compiled descriptor as Go, with its type defined as the integers of 64
bits, gives a program that is accepted, and whose method returns the name that the descriptor has
for each value, without a fault. The reader takes a byte order mark in a name like any other
character of a literal; of the texts in which one stands, `source?` says that a compiler may refuse
them. -/
theorem method_render {alphabet : Alphabet} {typeName : String} {records : List Record}
    {descriptor : Descriptor} (compiled : (compile typeName records).outcome = .ok descriptor)
    (size : records.length < 0x8000000000000000) (named : alphabet.IsName typeName)
    (free : typeName ∉ reserved) :
    ∃ text items, writeSection descriptor .unbounded = .ok ⟨text, none⟩ ∧
      read? alphabet text = some items ∧
      accepts (.declared typeName descriptor.signedness 64) items ∧
      ∀ word, callString (.declared typeName descriptor.signedness 64) items
        (descriptor.signedness.read word) = .ok (descriptor.render word).toByteArray := by
  have holds := compile_eq_ok_iff.mp compiled
  have nameFree : (IntType.declared typeName descriptor.signedness 64).name ∉ reserved := free
  obtain ⟨text, items, wrote, read, written⟩ := read?_writeSection holds named
  obtain ⟨accepted, agrees⟩ := agrees_normal.mpr (written.agrees holds (holds.carries size) nameFree)
  exact ⟨text, _, wrote, read, accepted, fun word => agrees word (holds_read _ _ word)⟩

/-- Two days around zero. The receiver of a far value wraps around when it is shifted. -/
theorem method_render_wraps : ∃ text items, read? ⟨fun _ => false, fun _ => false⟩ text = some items ∧
    accepts (.declared "Day" .signed 64) items ∧
    callString (.declared "Day" .signed 64) items (-1) = .ok "Mon".toByteArray ∧
    callString (.declared "Day" .signed 64) items 0x7fffffffffffffff =
      .ok "Day(9223372036854775807)".toByteArray := by
  have compiled : (compile "Day" [⟨"Mon", 0xffffffffffffffff, .signed⟩, ⟨"Tue", 0, .signed⟩]).outcome =
      .ok ⟨"Day", .signed, .oneRun, [⟨⟨"Mon", 0xffffffffffffffff, .signed⟩, [⟨"Tue", 0, .signed⟩]⟩],
        .perRun [⟨"MonTue", .w8 [0, 3, 6]⟩]⟩ := by cbv
  obtain ⟨text, items, _, read, accepted, agrees⟩ := method_render compiled (by decide)
    ⟨isWord_plain (by decide), by decide⟩ (by decide)
  exact ⟨text, items, read, accepted, agrees 0xffffffffffffffff, agrees 0x7fffffffffffffff⟩

end Descriptor
end EnumNames
