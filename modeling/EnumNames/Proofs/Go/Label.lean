import EnumNames.Go.Section
import EnumNames.Proofs.Go.Literal

/-! The names that sections declare. A name says which type it is for, what it holds and for which
run, so two names are equal only if all of this is, whatever the types are called: a type may be
called like a part of the name of another. -/
namespace EnumNames.Go

/-- What a declared name holds. -/
inductive Part
  | blob
  | offsets
  | map
deriving DecidableEq, Repr

def Part.ending : Part → String
  | .blob => "_name"
  | .offsets => "_index"
  | .map => "_map"

/-- What a declared name is made from. A run is given where a type has several. -/
structure Label where
  typeName : String
  part : Part
  run : Option Nat
deriving DecidableEq, Repr

namespace Label

/-- The name in front of the number of the run. -/
def stem (label : Label) : String := "_" ++ label.typeName ++ label.part.ending

/-- The name. Without a run it is `blobName`, `offsetsName` or `mapName` of the type. -/
def text (label : Label) : String :=
  match label.run with
  | none => label.stem
  | some run => numbered label.stem run

/-- The last letter of a stem tells what the name holds. -/
theorem getLast?_stem (label : Label) : label.stem.toList.getLast? =
    some (match label.part with | .blob => 'e' | .offsets => 'x' | .map => 'p') := by
  rw [stem, String.toList_append, List.getLast?_append]
  cases label.part <;> simp [Part.ending]

theorem stem_inj {left right : Label} (same : left.stem = right.stem) :
    left.typeName = right.typeName ∧ left.part = right.part := by
  have last : left.stem.toList.getLast? = right.stem.toList.getLast? := by rw [same]
  rw [getLast?_stem, getLast?_stem] at last
  have part : left.part = right.part := by
    cases l : left.part <;> cases r : right.part <;> simp_all
  refine ⟨?_, part⟩
  rwa [stem, stem, part, String.append_left_inj, String.append_right_inj] at same

/-- The digits at the end of a name, from the last one on. -/
def digits (label : Label) : List Char :=
  (label.run.elim [] fun run => (toString run).toList).reverse

/-- The characters in front of these digits, from the last one on. -/
def front (label : Label) : List Char :=
  (label.run.elim [] fun _ => ['_']) ++ label.stem.toList.reverse

theorem reverse_toList_text (label : Label) :
    label.text.toList.reverse = label.digits ++ label.front := by
  obtain ⟨typeName, part, run⟩ := label
  cases run <;> simp [text, digits, front, numbered]

theorem isDigit_of_mem_digits {label : Label} {c : Char} (member : c ∈ label.digits) :
    c.isDigit = true := by
  unfold digits at member
  rw [List.mem_reverse] at member
  cases run : label.run with
  | none => simp [run] at member
  | some number =>
    rw [run] at member
    exact isDigit_of_mem_toString member

/-- No digit stands in front of the digits at the end. -/
theorem not_isDigit_of_mem_head?_front {label : Label} {c : Char}
    (first : c ∈ label.front.head?) : ¬ c.isDigit = true := by
  have last := label.getLast?_stem
  unfold front at first
  cases run : label.run with
  | some number =>
    obtain rfl : '_' = c := by simpa [run] using first
    decide
  | none =>
    rw [run, Option.elim_none, List.nil_append, List.head?_reverse, last, Option.mem_some] at first
    subst first
    cases label.part <;> decide

theorem run_eq_of_digits {left right : Label} (same : left.digits = right.digits) :
    left.run = right.run := by
  have visible (number : Nat) : (toString number).toList ≠ [] := by
    rw [toList_toString_nat]
    exact Nat.toDigits_ne_nil
  simp only [digits, List.reverse_inj] at same
  cases l : left.run with
  | none =>
    cases r : right.run with
    | none => rfl
    | some number =>
      rw [l, r] at same
      exact absurd same.symm (visible number)
  | some number =>
    cases r : right.run with
    | none =>
      rw [l, r] at same
      exact absurd same (visible number)
    | some other =>
      rw [l, r] at same
      rw [toString_nat_injective (String.toList_inj.mp same)]

/-- A name determines what it is made from. -/
theorem text_injective : Function.Injective text := by
  intro left right same
  have reversed : left.text.toList.reverse = right.text.toList.reverse := by rw [same]
  rw [reverse_toList_text, reverse_toList_text] at reversed
  obtain ⟨digits, front⟩ := append_inj_of_forall (fun _ => isDigit_of_mem_digits)
    (fun _ => isDigit_of_mem_digits) (fun _ => not_isDigit_of_mem_head?_front)
    (fun _ => not_isDigit_of_mem_head?_front) reversed
  have run := run_eq_of_digits digits
  rw [Label.front, Label.front, run, List.append_cancel_left_eq, List.reverse_inj,
    String.toList_inj] at front
  obtain ⟨typeName, part⟩ := stem_inj front
  cases left
  cases right
  simp_all

end Label
end EnumNames.Go
