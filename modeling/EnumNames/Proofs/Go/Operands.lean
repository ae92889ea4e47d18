import EnumNames.Proofs.Go.RunNames
import EnumNames.Proofs.Go.Typing
import EnumNames.Proofs.Run

/-! The operands that the expressions of a section are, in a scope with its names. The constants of
a section are values of members, sizes of runs and offsets into names. -/
namespace EnumNames.Go

/-- A declared type that holds the values of the members of a descriptor. -/
structure IntType.Covers (type : IntType) (descriptor : Descriptor) : Prop where
  name : type.name = descriptor.typeName
  declared : type.isDeclared
  signedness : type.signedness = descriptor.signedness
  values : ∀ run ∈ descriptor.runs, ∀ record ∈ run.records,
    type.holds (descriptor.signedness.read record.value)

/-- A declared type that has room for the members of a descriptor and for counting them. -/
structure IntType.Carries (type : IntType) (descriptor : Descriptor) : Prop
    extends type.Covers descriptor where
  sizes : ∀ run ∈ descriptor.runs, type.holds run.size
  lengths : ∀ run ∈ descriptor.runs, IntType.int.holds run.size

namespace IntType.Covers
variable {type : IntType} {descriptor : Descriptor} (covers : type.Covers descriptor)
include covers

theorem holds_min {run : Run} (member : run ∈ descriptor.runs) :
    type.holds (descriptor.signedness.read run.min) :=
  covers.values run member run.first List.mem_cons_self

theorem holds_max {run : Run} (member : run ∈ descriptor.runs) :
    type.holds (descriptor.signedness.read run.max) := by
  obtain ⟨last, found, same⟩ := run.max_eq
  rw [same]
  exact covers.values run member last (List.mem_of_getElem? found)

end IntType.Covers

/-- A type that counts the members of a run counts the first of them. -/
theorem IntType.holds_one {type : IntType} {run : Run} (inside : type.holds run.size) :
    type.holds 1 := by
  have size := IntType.holds_nat.mp inside
  have positive : 0 < run.size := Nat.succ_pos _
  have one : ((1 : Nat) : Int) ≤ type.greatest := by omega
  exact IntType.holds_nat.mpr one

/-- Stored offsets fit the type that they are stored in. -/
theorem holds_offset {table : NameTable} {offset : Nat} (member : offset ∈ table.offsets.toList) :
    (IntType.element table.width.bits).holds offset := by
  obtain ⟨blob, offsets⟩ := table
  rw [IntType.holds_nat]
  cases offsets with
  | w8 offsets =>
    obtain ⟨word, _, rfl⟩ := List.mem_map.mp member
    have bound := word.toNat_lt
    have greatest : (IntType.element 8).greatest = 255 := by decide
    simp only [NameTable.width, OffsetTable.width, Width.bits, greatest]
    omega
  | w16 offsets =>
    obtain ⟨word, _, rfl⟩ := List.mem_map.mp member
    have bound := word.toNat_lt
    have greatest : (IntType.element 16).greatest = 65535 := by decide
    simp only [NameTable.width, OffsetTable.width, Width.bits, greatest]
    omega
  | w32 offsets =>
    obtain ⟨word, _, rfl⟩ := List.mem_map.mp member
    have bound := word.toNat_lt
    have greatest : (IntType.element 32).greatest = 4294967295 := by decide
    simp only [NameTable.width, OffsetTable.width, Width.bits, greatest]
    omega

section Expressions
variable {scope : Scope Operand} {type : IntType} {descriptor : Descriptor}

theorem operand?_connective {joining : Operator} (connects : joining = .and ∨ joining = .or)
    {left right : Expr} (leftBool : operand? scope left = some (.computed .bool))
    (rightBool : operand? scope right = some (.computed .bool)) :
    operand? scope (.wide joining left right) = some (.computed .bool) := by
  simp [operand?, leftBool, rightBool, Operand.join?, connects]

theorem operand?_offsetsArray (knows : scope.Knows type) (table : NameTable) :
    operand? scope (offsetsArray table) = some (.computed
      (.array (.element table.width.bits) table.offsets.toList.length)) := by
  have bits : table.width.bits ∈ [8, 16, 32] := by
    cases table.width <;> decide
  have inside : table.offsets.toList.all fun offset =>
      (IntType.element table.width.bits).holds offset :=
    List.all_eq_true.mpr fun offset member => holds_offset member
  simp only [offsetsArray, operand?, knows.element bits, inside, if_true]

/-- The number of members is a constant, so it must be in the range of the type. -/
theorem operand?_memberCount (knows : scope.Knows type) {offsets : String} {element : IntType}
    {size : Nat} (listed : scope offsets = some (.data (.computed (.array element (size + 1)))))
    (counted : IntType.int.holds size) :
    operand? scope (memberCount type.name offsets) = Operand.number? (some type) size := by
  simp [memberCount, operand?, listed, knows.len, knows.1, Operand.join?, Operand.number?,
    Operator.arithmetic?, counted]

variable (typed : scope "i" = some (.data (.computed (.int type))))
include typed

theorem operand?_receiver : operand? scope receiver = some (.computed (.int type)) := by
  simp only [receiver, operand?, typed]

theorem operand?_receiver_int {joining : Operator} {value : Int} (inside : type.holds value) :
    operand? scope (.wide joining receiver (.int value)) = Operand.combine? joining type := by
  simp [operand?, operand?_receiver typed, Operand.join?, Operand.fits, inside]

theorem operand?_int_receiver {joining : Operator} {value : Int} (inside : type.holds value) :
    operand? scope (.wide joining (.int value) receiver) = Operand.combine? joining type := by
  simp [operand?, operand?_receiver typed, Operand.join?, Operand.fits, inside]

omit typed in
theorem returnsString_fallback (knows : scope.Knows type) {value : Expr}
    (valued : operand? scope value = some (.computed (.int type))) :
    returnsString scope (fallback descriptor value) := by
  cases signedness : descriptor.signedness <;>
    simp [returnsString, fallback, signedness, operand?, valued, knows.strconv, knows.int64,
      knows.uint64, Operand.fits, Operand.join?, Operand.isString]

theorem returnsString_nameAtReceiver {blob offsets : String} {bytes : ByteArray}
    {element : IntType} {length : Nat} (one : type.holds 1)
    (named : scope blob = some (.data (.text bytes)))
    (listed : scope offsets = some (.data (.computed (.array element length)))) :
    returnsString scope (nameAtReceiver blob offsets) := by
  simp [returnsString, nameAtReceiver, operand?, operand?_receiver typed, named, listed, one,
    Operand.fits, Operand.join?, Operand.combine?, Operator.arithmetic?, Operand.isPlace,
    Operand.areBounds, Operand.isBound, Operand.isString]

theorem accepted_shift {run : Run} (inside : type.holds (descriptor.signedness.read run.min)) :
    ∀ statement ∈ shift descriptor run, statement.accepted scope := by
  unfold shift
  split
  · simp
  · simp [Simple.accepted, typed, inside]

end Expressions

section Definitions
variable {scope : Scope Operand} {type : IntType} {descriptor : Descriptor}

theorem declare?_eq_some {name : String} (fresh : scope name = none) (operand : Operand) :
    declare? scope name operand = some (scope.declare name (.data operand)) := by
  simp only [declare?, fresh]

theorem declareItem?_const {name : String} (fresh : scope name = none) (text : String) :
    declareItem? scope (.const name (.string text)) =
      some (scope.declare name (.data (.text text.toByteArray))) := by
  simp [declareItem?, declareConst?, operand?, declare?_eq_some fresh]

theorem declareVar?_offsetsArray (knows : scope.Knows type) {name : String} (table : NameTable) :
    declareVar? scope (name, offsetsArray table) = declare? scope name (.computed
      (.array (.element table.width.bits) table.offsets.toList.length)) := by
  simp [declareVar?, operand?_offsetsArray knows]

theorem declareItem?_stringMethod (declared : type.isDeclared) (knows : scope.Knows type)
    (body : List Stmt) : declareItem? scope (.stringMethod type.name body) =
      if isBody (scope.declare "i" (.data (.computed (.int type)))) body then some scope
      else none := by
  simp [declareItem?, knows.1, knows.string, declared]

/-- Definitions under new names are accepted one after the other. -/
theorem foldlM_declare? {β : Type} {step : Scope Operand → String × Expr → Option (Scope Operand)}
    {parts : List β} {definition : β → String × Expr} {operand : β → Operand}
    (each : ∀ scope : Scope Operand, scope.Knows type → ∀ part ∈ parts,
      step scope (definition part) = declare? scope (definition part).1 (operand part))
    (made : ∀ part ∈ parts, IsMade type.name (definition part).1)
    (nodup : (parts.map fun part => (definition part).1).Nodup) (knows : scope.Knows type)
    (fresh : ∀ part ∈ parts, scope (definition part).1 = none) :
    (parts.map definition).foldlM step scope = some (scope.declareAll (parts.map fun part =>
      ((definition part).1, .data (operand part)))) := by
  induction parts generalizing scope with
  | nil => rfl
  | cons part parts ih =>
    obtain ⟨own, others⟩ := List.forall_mem_cons.mp fresh
    obtain ⟨alone, nodup⟩ := List.nodup_cons.mp nodup
    have first := each scope knows part List.mem_cons_self
    rw [declare?_eq_some own] at first
    rw [List.map_cons, List.foldlM_cons, first]
    refine ih (fun scope knows other member => each scope knows other (List.mem_cons_of_mem _ member))
      (fun other member => made other (List.mem_cons_of_mem _ member)) nodup
      (knows.declare_isMade (made part List.mem_cons_self)) ?_
    intro other member
    have different : (definition other).1 ≠ (definition part).1 :=
      fun same => alone (List.mem_map.mpr ⟨other, member, same⟩)
    rw [Scope.declare_of_ne different]
    exact others other member

end Definitions

end EnumNames.Go
