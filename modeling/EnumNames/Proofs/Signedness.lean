import EnumNames.Record

/-! Words and the integers they stand for. A reading moves words into an interval of 2^64
integers without changing them modulo 2^64. Order, difference and successor of words are
those of the integers as long as nothing leaves the interval. -/
namespace EnumNames.Signedness

/-- The least integer that a word stands for. -/
def least : Signedness → Int
  | .signed => -0x8000000000000000
  | .unsigned => 0

theorem least_le_read (signedness : Signedness) (word : UInt64) :
    signedness.least ≤ signedness.read word := by
  cases signedness with
  | signed => exact word.toInt64.le_toInt
  | unsigned => exact Int.natCast_nonneg _

theorem read_lt (signedness : Signedness) (word : UInt64) :
    signedness.read word < signedness.least + 0x10000000000000000 := by
  cases signedness with
  | signed => exact word.toInt64.toInt_lt
  | unsigned =>
    have := word.toNat_lt
    simp only [read_unsigned, least]
    omega

theorem read_emod (signedness : Signedness) (word : UInt64) :
    signedness.read word % 0x10000000000000000 = word.toNat := by
  have small := word.toNat_lt
  cases signedness with
  | signed =>
    have same : word.toBitVec.toInt = (word.toNat : Int).bmod 0x10000000000000000 :=
      BitVec.toInt_eq_toNat_bmod word.toBitVec
    change word.toBitVec.toInt % _ = _
    rw [same]
    exact Int.bmod_emod.trans (Int.emod_eq_of_lt (by omega) (by omega))
  | unsigned =>
    simp only [read_unsigned]
    omega

theorem read_injective (signedness : Signedness) : Function.Injective signedness.read := by
  intro left right same
  have l := signedness.read_emod left
  have r := signedness.read_emod right
  apply UInt64.toNat_inj.mp
  omega

@[simp] theorem read_inj {signedness : Signedness} {left right : UInt64} :
    signedness.read left = signedness.read right ↔ left = right :=
  signedness.read_injective.eq_iff

/-- Words are subtracted like integers as long as the difference is not negative. -/
theorem toNat_sub {signedness : Signedness} {left right : UInt64}
    (ordered : signedness.read left ≤ signedness.read right) :
    ((right - left).toNat : Int) = signedness.read right - signedness.read left := by
  have := signedness.read_emod left
  have := signedness.read_emod right
  have := signedness.least_le_read left
  have := signedness.read_lt right
  rw [UInt64.toNat_sub]
  omega

/-- The successor of a word stands for the next integer unless it wraps. -/
theorem read_succ_iff {signedness : Signedness} {left right : UInt64} :
    signedness.read right = signedness.read left + 1 ↔
      right = left + 1 ∧ signedness.read left < signedness.read right := by
  have l := signedness.read_emod left
  have r := signedness.read_emod right
  have := signedness.least_le_read left
  have := signedness.read_lt right
  constructor
  · intro next
    refine ⟨?_, by omega⟩
    apply UInt64.toNat_inj.mp
    rw [UInt64.toNat_add, UInt64.toNat_one]
    omega
  · rintro ⟨rfl, ascends⟩
    rw [UInt64.toNat_add, UInt64.toNat_one] at r
    omega

/-- A word stands for no less than another exactly if the way up from that one, taken modulo 2^64,
stays inside the interval. -/
theorem read_le_read_iff {signedness : Signedness} {left right : UInt64} :
    signedness.read left ≤ signedness.read right ↔
      signedness.read left + (right - left).toNat < signedness.least + 0x10000000000000000 := by
  have := signedness.read_emod left
  have := signedness.read_emod right
  have := signedness.least_le_read right
  have := signedness.read_lt left
  have := signedness.read_lt right
  have := left.toNat_lt
  have := right.toNat_lt
  rw [UInt64.toNat_sub]
  omega

theorem isLE_compare {signedness : Signedness} {left right : UInt64} :
    (signedness.compare left right).isLE ↔ signedness.read left ≤ signedness.read right := by
  simp [compare, Std.isLE_compare]

theorem compare_eq_lt {signedness : Signedness} {left right : UInt64} :
    signedness.compare left right = .lt ↔ signedness.read left < signedness.read right := by
  simp [compare, Int.compare_eq_lt]

end EnumNames.Signedness
