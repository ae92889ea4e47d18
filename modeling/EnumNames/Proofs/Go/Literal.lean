import EnumNames.Go.Quoted
import EnumNames.Toml.Digit

/-! The literals of Go in a text: interpreted strings read by their own grammar, whatever follows
them, and decimal integers told apart by their characters. -/
namespace EnumNames

/-- Two lists that are equal are cut alike where a property ends. -/
theorem append_inj_of_forall {α : Type} {p : α → Prop} {left right leftRest rightRest : List α}
    (allLeft : ∀ x ∈ left, p x) (allRight : ∀ x ∈ right, p x)
    (endsLeft : ∀ x ∈ leftRest.head?, ¬p x) (endsRight : ∀ x ∈ rightRest.head?, ¬p x)
    (same : left ++ leftRest = right ++ rightRest) : left = right ∧ leftRest = rightRest := by
  induction left generalizing right with
  | nil =>
    cases right with
    | nil => exact ⟨rfl, same⟩
    | cons x right =>
      rw [List.nil_append] at same
      exact absurd (allRight x List.mem_cons_self) (endsLeft x (by simp [same]))
  | cons x left ih =>
    cases right with
    | nil =>
      rw [List.nil_append] at same
      exact absurd (allLeft x List.mem_cons_self) (endsRight x (by simp [← same]))
    | cons y right =>
      rw [List.cons_append, List.cons_append, List.cons.injEq] at same
      obtain ⟨rfl, same⟩ := same
      obtain ⟨rfl, rest⟩ := ih (fun z member => allLeft z (List.mem_cons_of_mem _ member))
        (fun z member => allRight z (List.mem_cons_of_mem _ member)) same
      exact ⟨rfl, rest⟩

namespace Go

/-- A character that stands behind a backslash for another one. -/
def simpleEscape? : Char → Option Char
  | 'a' => some '\x07'
  | 'b' => some '\x08'
  | 'f' => some '\x0c'
  | 'n' => some '\n'
  | 'r' => some '\r'
  | 't' => some '\t'
  | 'v' => some '\x0b'
  | '\\' => some '\\'
  | '"' => some '"'
  | _ => none

/-- The character that four hexadecimal digits name. -/
def hexEscape? (digits : List Char) : Option Char :=
  let n := Toml.ofDigits 16 digits
  if digits.all Toml.isHexDigit && n.isValidChar then some (.ofNat n) else none

/-- The text of an interpreted string literal behind its opening quotation mark, and what follows
the closing one. A literal ends on its line. -/
def literal? : List Char → Option (List Char × List Char)
  | [] => none
  | '\n' :: _ => none
  | '"' :: rest => some ([], rest)
  | '\\' :: 'u' :: a :: b :: c :: d :: rest => do
    let character ← hexEscape? [a, b, c, d]
    let (text, rest) ← literal? rest
    return (character :: text, rest)
  | '\\' :: c :: rest => do
    let character ← simpleEscape? c
    let (text, rest) ← literal? rest
    return (character :: text, rest)
  | c :: rest => do
    let (text, rest) ← literal? rest
    return (c :: text, rest)

theorem toNat_lt_of_isControl {c : Char} (control : isControl c) : c.toNat < 0xa0 := by
  simp only [isControl, Bool.or_eq_true, Bool.and_eq_true, decide_eq_true_eq] at control
  omega

/-- The three ways to write a character. A character that stands for itself and one that marks an
escape are no control characters. -/
theorem escape_cases (c : Char) :
    (∃ mark, escape c = ['\\', mark] ∧ simpleEscape? mark = some c ∧ mark ≠ 'u' ∧
        isControl mark = false) ∨
      (escape c = '\\' :: 'u' :: hex4 c.toNat ∧ c.toNat < 0xa0) ∨
      (escape c = [c] ∧ c ≠ '"' ∧ c ≠ '\\' ∧ isControl c = false) := by
  unfold escape
  split
  · exact .inl ⟨'"', rfl, by simp_all [simpleEscape?], by decide, by decide⟩
  split
  · exact .inl ⟨'\\', rfl, by simp_all [simpleEscape?], by decide, by decide⟩
  split
  · exact .inl ⟨'n', rfl, by simp_all [simpleEscape?], by decide, by decide⟩
  split
  · exact .inl ⟨'r', rfl, by simp_all [simpleEscape?], by decide, by decide⟩
  split
  · exact .inl ⟨'t', rfl, by simp_all [simpleEscape?], by decide, by decide⟩
  rename_i quote backslash _ _ _
  split
  · rename_i control
    exact .inr (.inl ⟨rfl, toNat_lt_of_isControl control⟩)
  · rename_i visible
    exact .inr (.inr ⟨rfl, quote, backslash, Bool.eq_false_iff.mpr visible⟩)

theorem hexDigit_digitChar {n : Nat} (small : n < 16) :
    Toml.isHexDigit n.digitChar ∧ Toml.digitValue n.digitChar = n := by
  have table : ∀ n < 16, Toml.isHexDigit (Nat.digitChar n) ∧
    Toml.digitValue (Nat.digitChar n) = n := by decide
  exact table n small

theorem isHexDigit_hex4 (n : Nat) : (hex4 n).all Toml.isHexDigit := by
  rw [hex4, List.all_map, List.all_eq_true]
  intro place _
  exact (hexDigit_digitChar (Nat.mod_lt _ (by decide))).1

theorem ofDigits_hex4 {n : Nat} (small : n < 0x10000) : Toml.ofDigits 16 (hex4 n) = n := by
  have digit (place : Nat) : Toml.digitValue (Nat.digitChar (n / place % 16)) = n / place % 16 :=
    (hexDigit_digitChar (Nat.mod_lt _ (by decide))).2
  simp only [hex4, Toml.ofDigits, List.map_cons, List.map_nil, List.foldl_cons, List.foldl_nil,
    digit]
  omega

theorem hexEscape?_hex4 {c : Char} (small : c.toNat < 0x10000) :
    hexEscape? (hex4 c.toNat) = some c := by
  have valid : c.toNat.isValidChar := c.valid
  simp [hexEscape?, isHexDigit_hex4, ofDigits_hex4 small, valid]

/-- What is written for a character is read as that character, in front of any text. -/
theorem literal?_escape (c : Char) (rest : List Char) :
    literal? (escape c ++ rest) = (literal? rest).map fun (text, rest) => (c :: text, rest) := by
  obtain ⟨mark, written, means, named, _⟩ | ⟨written, small⟩ | ⟨written, quote, backslash,
    visible⟩ := escape_cases c
  · rw [written]
    cases read : literal? rest <;> simp [literal?, means, named, read]
  · rw [written]
    have digits := hexEscape?_hex4 (Nat.lt_trans small (by decide))
    simp only [hex4, List.map_cons, List.map_nil, Nat.div_one] at digits
    cases read : literal? rest <;> simp [literal?, hex4, digits, read]
  · have newline : c ≠ '\n' := fun same => absurd (same ▸ visible) (by decide)
    rw [written, List.singleton_append,
      literal?.eq_6 c rest newline quote (by simp_all) (by simp_all)]
    cases literal? rest <;> rfl

theorem literal?_flatMap_escape (text rest : List Char) :
    literal? (text.flatMap escape ++ '"' :: rest) = some (text, rest) := by
  induction text with
  | nil => rfl
  | cons c text ih => rw [List.flatMap_cons, List.append_assoc, literal?_escape, ih]; rfl

theorem literal?_verbatim {text : List Char} (plain : ∀ c ∈ text, c ≠ '"' ∧ c ≠ '\\' ∧ c ≠ '\n')
    (rest : List Char) : literal? (text ++ '"' :: rest) = some (text, rest) := by
  induction text with
  | nil => rfl
  | cons c text ih =>
    obtain ⟨quote, backslash, newline⟩ := plain c List.mem_cons_self
    rw [List.cons_append, literal?.eq_6 c _ newline quote (by simp_all) (by simp_all),
      ih fun d member => plain d (List.mem_cons_of_mem _ member)]
    rfl

theorem toList_quoted (text : String) :
    (quoted text).toList = '"' :: (text.toList.flatMap escape ++ ['"']) := by
  simp [quoted]

theorem quoted_injective : Function.Injective quoted := by
  intro left right same
  have characters := congrArg String.toList same
  rw [toList_quoted, toList_quoted, List.cons.injEq] at characters
  have read := congrArg literal? characters.2
  rw [literal?_flatMap_escape, literal?_flatMap_escape, Option.some.injEq, Prod.mk.injEq] at read
  exact String.toList_inj.mp read.1

theorem isControl_of_mem_hex4 {n : Nat} {c : Char} (member : c ∈ hex4 n) : isControl c = false := by
  have digit : ∀ d < 16, isControl (Nat.digitChar d) = false := by decide
  obtain ⟨place, _, rfl⟩ := List.mem_map.mp member
  exact digit _ (Nat.mod_lt _ (by decide))

/-- What is written for a character is visible, whatever it stands for. -/
theorem isControl_of_mem_escape {c d : Char} (member : d ∈ escape c) : isControl d = false := by
  obtain ⟨mark, written, _, _, visible⟩ | ⟨written, _⟩ | ⟨written, _, _, visible⟩ :=
    escape_cases c
  · simp only [written, List.mem_cons, List.not_mem_nil, or_false] at member
    rcases member with rfl | rfl
    · decide
    · exact visible
  · rw [written, List.mem_cons, List.mem_cons] at member
    rcases member with rfl | rfl | digit
    · decide
    · decide
    · exact isControl_of_mem_hex4 digit
  · rw [written, List.mem_singleton] at member
    rw [member]
    exact visible

theorem isControl_of_mem_quoted {text : String} {c : Char} (member : c ∈ (quoted text).toList) :
    isControl c = false := by
  simp only [toList_quoted, List.mem_cons, List.mem_append, List.mem_flatMap, List.not_mem_nil,
    or_false] at member
  rcases member with rfl | ⟨d, _, inside⟩ | rfl
  · decide
  · exact isControl_of_mem_escape inside
  · decide

theorem newline_notMem_quoted (text : String) : '\n' ∉ (quoted text).toList :=
  fun member => absurd (isControl_of_mem_quoted member) (by decide)

/-- A character of a decimal integer. -/
def isNumeral (c : Char) : Bool := c.isDigit || c == '-'

theorem toList_toString_nat (n : Nat) : (toString n).toList = Nat.toDigits 10 n := Nat.toList_repr

theorem isDigit_of_mem_toString {n : Nat} {c : Char} (member : c ∈ (toString n).toList) :
    c.isDigit := by
  rw [toList_toString_nat] at member
  exact Nat.isDigit_of_mem_toDigits (by decide) (by decide) member

theorem toString_int_cases (value : Int) :
    (∃ n : Nat, value = n ∧ toString value = toString n) ∨
      ∃ n : Nat, value = -n ∧ 0 < n ∧ toString value = "-" ++ toString n := by
  cases value with
  | ofNat n => exact .inl ⟨n, rfl, rfl⟩
  | negSucc n => exact .inr ⟨n + 1, rfl, Nat.succ_pos n, rfl⟩

theorem isNumeral_of_mem_toString {value : Int} {c : Char} (member : c ∈ (toString value).toList) :
    isNumeral c := by
  obtain ⟨n, _, written⟩ | ⟨n, _, _, written⟩ := toString_int_cases value
  · rw [written] at member
    simp [isNumeral, isDigit_of_mem_toString member]
  · rw [written, String.toList_append, List.mem_append] at member
    rcases member with sign | digit
    · simp_all [isNumeral]
    · simp [isNumeral, isDigit_of_mem_toString digit]

theorem toString_nat_injective : Function.Injective (toString : Nat → String) := by
  intro left right same
  have digits := congrArg String.toList same
  rw [toList_toString_nat, toList_toString_nat] at digits
  have numbers := congrArg (Nat.ofDigitChars 10 · 0) digits
  simpa using numbers

theorem toString_int_injective : Function.Injective (toString : Int → String) := by
  have differ (n m : Nat) : toString n ≠ "-" ++ toString m := by
    intro same
    have sign : '-' ∈ (toString n).toList := by simp [same]
    exact absurd (isDigit_of_mem_toString sign) (by decide)
  intro left right same
  obtain ⟨n, rfl, l⟩ | ⟨n, rfl, _, l⟩ := toString_int_cases left <;>
    obtain ⟨m, rfl, r⟩ | ⟨m, rfl, _, r⟩ := toString_int_cases right <;> rw [l, r] at same
  · rw [toString_nat_injective same]
  · exact absurd same (differ n m)
  · exact absurd same.symm (differ m n)
  · rw [toString_nat_injective ((String.append_right_inj _).mp same)]

theorem toList_toString_int (value : Int) :
    ∃ c rest, (toString value).toList = c :: rest ∧ isNumeral c := by
  cases characters : (toString value).toList with
  | nil =>
    obtain ⟨n, _, written⟩ | ⟨n, _, _, written⟩ := toString_int_cases value
    · rw [written, toList_toString_nat] at characters
      exact absurd characters Nat.toDigits_ne_nil
    · simp [written] at characters
  | cons c rest =>
    exact ⟨c, rest, rfl, isNumeral_of_mem_toString (characters ▸ List.mem_cons_self)⟩

/-- Whether no number goes on with a text. -/
def stopsNumeral (rest : String) : Bool := rest.toList.head?.all fun c => !isNumeral c

theorem stopsNumeral_append {mark rest : String} (stops : stopsNumeral mark) (visible : mark ≠ "") :
    stopsNumeral (mark ++ rest) := by
  simp only [stopsNumeral, String.toList_append] at stops ⊢
  cases characters : mark.toList with
  | nil => exact absurd (String.toList_eq_nil_iff.mp characters) visible
  | cons c characters' =>
    rw [characters] at stops
    exact stops

/-- Numbers are told apart by what stops them. -/
theorem toString_append_inj {left right : Int} {leftRest rightRest : String}
    (stopsLeft : stopsNumeral leftRest) (stopsRight : stopsNumeral rightRest)
    (same : toString left ++ leftRest = toString right ++ rightRest) :
    left = right ∧ leftRest = rightRest := by
  have ends {rest : String} (stops : stopsNumeral rest) :
      ∀ c ∈ rest.toList.head?, ¬isNumeral c = true := by
    intro c first
    rw [stopsNumeral, Option.mem_def.mp first] at stops
    simpa using stops
  have characters := congrArg String.toList same
  rw [String.toList_append, String.toList_append] at characters
  obtain ⟨numbers, rests⟩ := append_inj_of_forall (fun _ => isNumeral_of_mem_toString)
    (fun _ => isNumeral_of_mem_toString) (ends stopsLeft) (ends stopsRight) characters
  exact ⟨toString_int_injective (String.toList_inj.mp numbers), String.toList_inj.mp rests⟩

theorem toString_nat_append_inj {left right : Nat} {leftRest rightRest : String}
    (stopsLeft : stopsNumeral leftRest) (stopsRight : stopsNumeral rightRest)
    (same : toString left ++ leftRest = toString right ++ rightRest) :
    left = right ∧ leftRest = rightRest := by
  have cut : (left : Int) = right ∧ leftRest = rightRest :=
    toString_append_inj stopsLeft stopsRight same
  exact ⟨Int.ofNat_inj.mp cut.1, cut.2⟩

theorem intercalate_inj {left right : List Nat}
    (same : ", ".intercalate (left.map toString) = ", ".intercalate (right.map toString)) :
    left = right := by
  have written (n : Nat) (rest : List Nat) : ∃ after : String,
      ", ".intercalate ((n :: rest).map toString) = toString n ++ after ∧
        stopsNumeral after ∧
        after = if rest = [] then "" else ", " ++ ", ".intercalate (rest.map toString) := by
    cases rest with
    | nil => exact ⟨"", by simp, by decide, rfl⟩
    | cons m rest =>
      refine ⟨", " ++ ", ".intercalate ((m :: rest).map toString), ?_,
        stopsNumeral_append (by decide) (by decide), rfl⟩
      simp [String.append_assoc]
  induction left generalizing right with
  | nil =>
    cases right with
    | nil => rfl
    | cons m right => cases right <;> simp at same
  | cons n left ih =>
    cases right with
    | nil => cases left <;> simp at same
    | cons m right =>
      obtain ⟨leftRest, leftWritten, leftEnds, leftAfter⟩ := written n left
      obtain ⟨rightRest, rightWritten, rightEnds, rightAfter⟩ := written m right
      rw [leftWritten, rightWritten] at same
      obtain ⟨rfl, rests⟩ := toString_nat_append_inj leftEnds rightEnds same
      rw [leftAfter, rightAfter] at rests
      split at rests <;> rename_i l <;> split at rests <;> rename_i r
      · rw [l, r]
      · simpa using congrArg String.toList rests
      · simpa using congrArg String.toList rests
      · rw [ih ((String.append_right_inj _).mp rests)]

theorem toString_append_ne {value : Int} {rest other : String}
    (name : other.toList.head? = some 'i') : toString value ++ rest ≠ other := by
  intro same
  obtain ⟨c, cs, written, numeral⟩ := toList_toString_int value
  rw [← same, String.toList_append, written, List.cons_append, List.head?_cons,
    Option.some.injEq] at name
  subst name
  exact absurd numeral (by decide)

end Go
end EnumNames
