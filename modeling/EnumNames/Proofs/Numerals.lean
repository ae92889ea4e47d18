import EnumNames.Proofs.Lookup
import EnumNames.Proofs.Go.Literal

/-! Words printed in decimal digits and read back. The reader knows only digits and signs, so what
a printed word denotes is settled by its text alone, and order, successor and difference of words
are those of the numbers their texts denote. -/
namespace EnumNames

/-- The number that a row of decimal digits stands for. There is no number without a digit. -/
def natural? (digits : List Char) : Option Nat :=
  if digits ≠ [] ∧ digits.all Char.isDigit then some (Nat.ofDigitChars 10 digits 0) else none

/-- The integer that a text denotes: digits, with or without a sign in front of them. -/
def integer? : List Char → Option Int
  | '-' :: digits => (natural? digits).map fun n => -(n : Int)
  | '+' :: digits => (natural? digits).map fun n => (n : Int)
  | digits => (natural? digits).map fun n => (n : Int)

theorem natural?_toString (n : Nat) : natural? (toString n).toList = some n := by
  have digits : ∀ c ∈ Nat.toDigits 10 n, c.isDigit :=
    fun c member => Nat.isDigit_of_mem_toDigits (by decide) (by decide) member
  rw [Go.toList_toString_nat, natural?, if_pos ⟨Nat.toDigits_ne_nil, List.all_eq_true.mpr digits⟩,
    Nat.ofDigitChars_ten_toDigits]

/-- Digits alone denote what they stand for: none of them is a sign. -/
theorem integer?_of_natural? {digits : List Char} {n : Nat} (read : natural? digits = some n) :
    integer? digits = some (n : Int) := by
  cases digits with
  | nil => simp [natural?] at read
  | cons c others =>
    have digit : c.isDigit := by
      by_contra other
      simp [natural?, other] at read
    have unsigned {sign : Char} (other : sign.isDigit = false) (rest : List Char)
        (same : c :: others = sign :: rest) : False := by
      rw [(List.cons.inj same).1, other] at digit
      contradiction
    rw [integer?.eq_3 _ (unsigned (by decide)) (unsigned (by decide)), read]
    rfl

theorem integer?_toString (number : Int) : integer? (toString number).toList = some number := by
  obtain ⟨n, rfl, written⟩ | ⟨n, rfl, _, written⟩ := Go.toString_int_cases number
  · rw [written]
    exact integer?_of_natural? (natural?_toString n)
  · have characters : (toString (-n : Int)).toList = '-' :: (toString n).toList := by
      rw [written, String.toList_append]
      rfl
    rw [characters, integer?, natural?_toString]
    rfl

namespace Signedness

/-- The word that stands for an integer, if one does. -/
def ofInt? (signedness : Signedness) (number : Int) : Option UInt64 :=
  if signedness.least ≤ number ∧ number < signedness.least + 0x10000000000000000 then
    some (UInt64.ofInt number)
  else none

/-- Reads a word from a text in decimal digits. There is none for a number out of range, and an
unsigned number takes no minus sign. -/
def parse? (signedness : Signedness) (text : String) : Option UInt64 :=
  if signedness = .unsigned ∧ text.toList.head? = some '-' then none
  else (integer? text.toList).bind signedness.ofInt?

variable {signedness : Signedness}

theorem ofInt?_eq_some_iff {number : Int} {word : UInt64} :
    signedness.ofInt? number = some word ↔ signedness.read word = number := by
  have residue (n : Int) : ((UInt64.ofInt n).toNat : Int) = n % 0x10000000000000000 := by
    simp only [UInt64.ofInt, UInt64.toNat_ofNat']
    omega
  unfold ofInt?
  constructor
  · intro found
    split at found
    · rename_i inside
      obtain rfl := Option.some.inj found
      have := residue number
      have := signedness.read_emod (UInt64.ofInt number)
      have := signedness.least_le_read (UInt64.ofInt number)
      have := signedness.read_lt (UInt64.ofInt number)
      omega
    · contradiction
  · rintro rfl
    rw [if_pos ⟨signedness.least_le_read word, signedness.read_lt word⟩]
    apply congrArg some
    apply UInt64.toNat_inj.mp
    have := residue (signedness.read word)
    have := signedness.read_emod word
    omega

/-- A text is read as a word exactly if it denotes the integer that the word stands for, and does
so without a minus sign where there are no negative numbers. -/
theorem parse?_eq_some_iff {text : String} {word : UInt64} :
    signedness.parse? text = some word ↔
      integer? text.toList = some (signedness.read word) ∧
        (signedness = .unsigned → text.toList.head? ≠ some '-') := by
  unfold parse?
  by_cases refused : signedness = .unsigned ∧ text.toList.head? = some '-'
  · rw [if_pos refused]
    constructor
    · intro found
      contradiction
    · intro ⟨_, allowed⟩
      exact absurd refused.2 (allowed refused.1)
  · rw [if_neg refused, Option.bind_eq_some_iff]
    constructor
    · rintro ⟨number, denoted, found⟩
      rw [ofInt?_eq_some_iff.mp found]
      exact ⟨denoted, fun unsigned sign => refused ⟨unsigned, sign⟩⟩
    · intro ⟨denoted, _⟩
      exact ⟨_, denoted, ofInt?_eq_some_iff.mpr rfl⟩

theorem integer?_decimal (word : UInt64) :
    integer? (signedness.decimal word).toList = some (signedness.read word) :=
  integer?_toString _

/-- The integer that a printed word denotes. -/
def denoted (signedness : Signedness) (word : UInt64) : Int :=
  (integer? (signedness.decimal word).toList).get (by rw [integer?_decimal]; rfl)

theorem denoted_eq_read (word : UInt64) : signedness.denoted word = signedness.read word := by
  unfold denoted
  exact Option.get_of_eq_some _ (integer?_decimal word)

theorem parse?_decimal (word : UInt64) :
    signedness.parse? (signedness.decimal word) = some word := by
  refine parse?_eq_some_iff.mpr ⟨integer?_decimal word, ?_⟩
  -- A word without a sign is printed as a natural number, whose first character is a digit.
  rintro rfl sign
  have digit := Go.isDigit_of_mem_toString (n := word.toNat) (List.mem_of_head? sign)
  exact absurd digit (by decide)

theorem decimal_injective (signedness : Signedness) : Function.Injective signedness.decimal := by
  intro left right same
  have parsed := congrArg signedness.parse? same
  rw [parse?_decimal, parse?_decimal] at parsed
  exact Option.some.inj parsed

theorem compare_eq_compare_denoted (left right : UInt64) :
    signedness.compare left right =
      Ord.compare (signedness.denoted left) (signedness.denoted right) := by
  rw [denoted_eq_read, denoted_eq_read]
  rfl

theorem denoted_succ_iff {left right : UInt64} :
    signedness.denoted right = signedness.denoted left + 1 ↔
      right = left + 1 ∧ signedness.compare left right = .lt := by
  rw [denoted_eq_read, denoted_eq_read, compare_eq_lt]
  exact read_succ_iff

theorem sub_of_denoted_succ {left right : UInt64}
    (next : signedness.denoted right = signedness.denoted left + 1) : right - left = 1 := by
  obtain ⟨rfl, _⟩ := denoted_succ_iff.mp next
  rw [UInt64.add_comm]
  exact UInt64.add_sub_cancel 1 left

end Signedness

namespace Record

variable {left middle right : Record} {signedness : Signedness}

theorem compareValue_eq (right : Record) (typed : left.signedness = signedness) :
    left.compareValue right =
      Ord.compare (signedness.denoted left.value) (signedness.denoted right.value) := by
  subst typed
  exact Signedness.compare_eq_compare_denoted left.value right.value

theorem compareValue_swap (typedLeft : left.signedness = signedness)
    (typedRight : right.signedness = signedness) :
    right.compareValue left = (left.compareValue right).swap := by
  rw [compareValue_eq right typedLeft, compareValue_eq left typedRight]
  exact Std.OrientedCmp.eq_swap

theorem compareValue_trans (typedLeft : left.signedness = signedness)
    (typedMiddle : middle.signedness = signedness) (below : (left.compareValue middle).isLE)
    (above : (middle.compareValue right).isLE) : (left.compareValue right).isLE := by
  rw [compareValue_eq _ typedLeft] at below ⊢
  rw [compareValue_eq _ typedMiddle] at above
  exact Std.TransCmp.isLE_trans below above

theorem compareValue_eq_eq_iff (typed : left.signedness = signedness) :
    left.compareValue right = .eq ↔ left.value = right.value := by
  rw [compareValue_eq _ typed, Std.LawfulEqCmp.compare_eq_iff_eq, Signedness.denoted_eq_read,
    Signedness.denoted_eq_read, Signedness.read_inj]

end Record

namespace Descriptor

variable {descriptor : Descriptor} {left right : UInt64}

theorem fallback_injective (descriptor : Descriptor) :
    Function.Injective descriptor.fallback := by
  intro left right same
  apply descriptor.signedness.decimal_injective
  simpa [fallback] using same

theorem render_ne_render (unnamedLeft : descriptor.lookup? left = none)
    (unnamedRight : descriptor.lookup? right = none) (differ : left ≠ right) :
    descriptor.render left ≠ descriptor.render right := by
  rw [render, render, unnamedLeft, unnamedRight]
  exact descriptor.fallback_injective.ne differ

end Descriptor

namespace Signedness

/-- Printing, order, successor and difference take a word for the same integer, the one that its
printed text denotes. -/
theorem denoted_agrees (signedness : Signedness) :
    (∀ word, integer? (signedness.decimal word).toList = some (signedness.denoted word) ∧
        signedness.parse? (signedness.decimal word) = some word) ∧
      Function.Injective signedness.decimal ∧
      (∀ left right, signedness.compare left right =
        Ord.compare (signedness.denoted left) (signedness.denoted right)) ∧
      (∀ left middle right : Record, left.signedness = signedness →
        middle.signedness = signedness → right.signedness = signedness →
          middle.compareValue left = (left.compareValue middle).swap ∧
          ((left.compareValue middle).isLE → (middle.compareValue right).isLE →
            (left.compareValue right).isLE) ∧
          (left.compareValue middle = .eq ↔ left.value = middle.value)) ∧
      (∀ left right, right = left + 1 ∧ signedness.compare left right = .lt ↔
        signedness.denoted right = signedness.denoted left + 1) ∧
      (∀ left right, signedness.denoted right = signedness.denoted left + 1 → right - left = 1) ∧
      ∀ descriptor : Descriptor, Function.Injective descriptor.fallback ∧
        ∀ left right, left ≠ right →
          descriptor.lookup? left = none → descriptor.lookup? right = none →
            descriptor.render left ≠ descriptor.render right := by
  refine ⟨?_, signedness.decimal_injective, compare_eq_compare_denoted, ?_,
    fun _ _ => denoted_succ_iff.symm, fun _ _ => sub_of_denoted_succ, ?_⟩
  · intro word
    constructor
    · rw [denoted_eq_read]
      exact integer?_decimal word
    · exact parse?_decimal word
  · intro left middle right typedLeft typedMiddle _
    refine ⟨?_, ?_, ?_⟩
    · exact Record.compareValue_swap typedLeft typedMiddle
    · exact Record.compareValue_trans typedLeft typedMiddle
    · exact Record.compareValue_eq_eq_iff typedLeft
  · intro descriptor
    refine ⟨descriptor.fallback_injective, ?_⟩
    intro left right differ unnamedLeft unnamedRight
    exact Descriptor.render_ne_render unnamedLeft unnamedRight differ

/-- A signed zero follows minus one, although the word wraps; the word above the greatest number of
its type stands for no successor. A type with the value 0 alone renders its other values apart. -/
theorem denoted_agrees_extremes :
    signed.denoted 0xffffffffffffffff = -1 ∧
      signed.parse? (signed.decimal 0x8000000000000000) = some 0x8000000000000000 ∧
      ((0 : UInt64) = 0xffffffffffffffff + 1 ∧ signed.compare 0xffffffffffffffff 0 = .lt) ∧
      (0 : UInt64) - 0xffffffffffffffff = 1 ∧
      signed.denoted 0x8000000000000000 ≠ signed.denoted 0x7fffffffffffffff + 1 ∧
      unsigned.denoted 0 ≠ unsigned.denoted 0xffffffffffffffff + 1 ∧
      (Record.compareValue ⟨"B", 0, .signed⟩ ⟨"A", 0xffffffffffffffff, .signed⟩).isGT ∧
      (Record.compareValue ⟨"A", 0xffffffffffffffff, .signed⟩ ⟨"C", 1, .signed⟩).isLE ∧
      ∃ descriptor, (Descriptor.compile "T" [⟨"A", 0, .signed⟩]).outcome = .ok descriptor ∧
        descriptor.render 0x7fffffffffffffff ≠ descriptor.render 0x8000000000000000 := by
  obtain ⟨numerals, _, _, records, successor, difference, fallbacks⟩ := denoted_agrees signed
  have minusOne : signed.denoted 0xffffffffffffffff = -1 := by
    rw [denoted_eq_read]
    decide
  have zero : signed.denoted 0 = signed.denoted 0xffffffffffffffff + 1 := by
    rw [minusOne, denoted_eq_read]
    decide
  obtain ⟨swap, trans, _⟩ := records ⟨"A", 0xffffffffffffffff, .signed⟩ ⟨"B", 0, .signed⟩
    ⟨"C", 1, .signed⟩ rfl rfl rfl
  have compiled : (Descriptor.compile "T" [⟨"A", 0, .signed⟩]).outcome =
    .ok ⟨"T", .signed, .oneRun, [⟨⟨"A", 0, .signed⟩, []⟩], .perRun [⟨"A", .w8 [0, 1]⟩]⟩ := by cbv
  refine ⟨minusOne, (numerals _).2, (successor _ _).mpr zero, difference _ _ zero, ?_, ?_, ?_, ?_,
    _, compiled, ?_⟩
  · intro next
    exact absurd ((successor _ _).mpr next).2 (by decide)
  · intro next
    exact absurd (((denoted_agrees unsigned).2.2.2.2.1 _ _).mpr next).2 (by decide)
  · rw [swap]
    decide
  · exact trans (by decide) (by decide)
  · exact (fallbacks _).2 _ _ (by decide) (by decide +kernel) (by decide +kernel)

end Signedness
end EnumNames
