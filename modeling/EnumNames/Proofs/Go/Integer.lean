import EnumNames.Signedness

/-! The integer types of Go. Constants must be in the range of their type; computed values wrap
around into it. -/
namespace EnumNames.Go

/-- An integer type, of the language or of a package. -/
structure IntType where
  name : String
  isDeclared : Bool
  signedness : Signedness
  bits : Nat
deriving DecidableEq, Repr

namespace IntType

/-- Half the number of values of a type. -/
def half (type : IntType) : Nat := 1 <<< (type.bits - 1)

def least (type : IntType) : Int :=
  match type.signedness with
  | .signed => -type.half
  | .unsigned => 0

def greatest (type : IntType) : Int := type.least + 2 * type.half - 1

def holds (type : IntType) (value : Int) : Bool := type.least ≤ value && value ≤ type.greatest

/-- The value of a type that equals an integer modulo the number of its values. -/
def wrap (type : IntType) (value : Int) : Int :=
  (value - type.least) % (2 * type.half) + type.least

theorem half_pos (type : IntType) : 0 < type.half := by
  rw [half, Nat.one_shiftLeft]
  exact Nat.two_pow_pos _

theorem least_cases (type : IntType) : type.least = 0 ∨ type.least = -type.half := by
  rw [least]
  cases type.signedness
  · exact .inr rfl
  · exact .inl rfl

theorem holds_iff {type : IntType} {value : Int} :
    type.holds value ↔ type.least ≤ value ∧ value ≤ type.greatest := by
  simp [holds]

theorem holds_nat {type : IntType} {value : Nat} : type.holds value ↔ (value : Int) ≤ type.greatest := by
  have bounds := type.least_cases
  rw [holds_iff]
  omega

theorem holds_zero (type : IntType) : type.holds 0 := by
  have positive := type.half_pos
  have bounds := type.least_cases
  rw [holds_iff, greatest]
  omega

theorem wrap_of_holds {type : IntType} {value : Int} (inside : type.holds value) :
    type.wrap value = value := by
  obtain ⟨lower, upper⟩ := holds_iff.mp inside
  rw [greatest] at upper
  rw [wrap, Int.emod_eq_of_lt (by omega) (by omega)]
  omega

theorem holds_wrap (type : IntType) (value : Int) : type.holds (type.wrap value) := by
  have positive := type.half_pos
  have lower := Int.emod_nonneg (value - type.least) (b := 2 * type.half) (by omega)
  have upper := Int.emod_lt_of_pos (value - type.least) (b := 2 * type.half) (by omega)
  rw [holds_iff, greatest, wrap]
  omega

/-- Behind the greatest value comes the least one. -/
theorem wrap_greatest_add_one (type : IntType) : type.wrap (type.greatest + 1) = type.least := by
  have whole : type.greatest + 1 - type.least = 2 * type.half := by
    rw [greatest]
    omega
  rw [wrap, whole, Int.emod_self, Int.zero_add]

/-- Wrapping once or twice is the same where something is added in between. -/
theorem wrap_wrap_add (type : IntType) (value more : Int) :
    type.wrap (type.wrap value + more) = type.wrap (value + more) := by
  simp only [wrap]
  have same : (value - type.least) % (2 * type.half) + type.least + more - type.least =
      (value - type.least) % (2 * type.half) + more := by omega
  rw [same, Int.emod_add_emod]
  congr 2
  omega

/-- Taking a value away and adding it again gives back what was there. -/
theorem wrap_sub_add {type : IntType} {value : Int} (inside : type.holds value) (amount : Int) :
    type.wrap (type.wrap (value - amount) + amount) = value := by
  rw [wrap_wrap_add, Int.sub_add_cancel, wrap_of_holds inside]

/-- A distance that leaves the range comes back on the other side. -/
theorem wrap_sub_cases {type : IntType} {value start : Int} (inside : type.holds value)
    (startInside : type.holds start) :
    type.wrap (value - start) = value - start ∨
      (type.greatest < value - start ∧ type.wrap (value - start) = value - start - 2 * type.half) ∨
      (value - start < type.least ∧ type.wrap (value - start) = value - start + 2 * type.half) := by
  have positive := type.half_pos
  have bounds := type.least_cases
  rw [holds_iff, greatest] at inside startInside
  have wide : (0 : Int) < 2 * type.half := by omega
  by_cases above : type.greatest < value - start
  · refine .inr (.inl ⟨above, ?_⟩)
    rw [greatest] at above
    rw [wrap, ← Int.sub_emod_right, Int.emod_eq_of_lt (by omega) (by omega)]
    omega
  by_cases below : value - start < type.least
  · refine .inr (.inr ⟨below, ?_⟩)
    rw [wrap, ← Int.add_emod_right, Int.emod_eq_of_lt (by omega) (by omega)]
    omega
  · exact .inl (wrap_of_holds (holds_iff.mpr ⟨by omega, by omega⟩))

/-- Behind a shift by the first value of a run, exactly the values of the run are below its size. -/
theorem wrap_sub_lt_iff {type : IntType} {value start : Int} {size : Nat}
    (inside : type.holds value) (startInside : type.holds start)
    (lastInside : type.holds (start + size - 1)) (fits : (size : Int) ≤ type.greatest) :
    0 ≤ type.wrap (value - start) ∧ type.wrap (value - start) < size ↔
      start ≤ value ∧ value < start + size := by
  have bounds := type.least_cases
  have cases := wrap_sub_cases inside startInside
  rw [holds_iff] at inside startInside lastInside
  rw [greatest] at *
  rcases cases with same | ⟨above, same⟩ | ⟨below, same⟩
  · omega
  · rw [same]
    omega
  · rw [same]
    omega

end IntType
end EnumNames.Go
