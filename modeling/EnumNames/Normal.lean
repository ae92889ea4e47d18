import EnumNames.Record
import EnumNames.Traced

/-! The constants of a type in ascending order, one for each value. Constants that share a
value are neighbours after a stable sort, the first declared in front; that one is kept. -/
namespace EnumNames.Record

/-- How all the words are read; the records have to agree on it. -/
def commonSignedness (typeName : String) : List Record → Except Error Signedness
  | [] => .error (.emptyInput typeName)
  | first :: others =>
    match others.find? (·.signedness != first.signedness) with
    | some odd => .error (.mixedSignedness typeName odd.name)
    | none => .ok first.signedness

/-- Ascending by value; equal values stay in their order. -/
def ascending (records : List Record) : List Record :=
  records.mergeSort fun left right => (left.compareValue right).isLE

/-- The constants of each value together, the values in ascending order. -/
def byValue (records : List Record) : List (List Record) :=
  (ascending records).splitBy fun left right => left.value == right.value

/-- The first constant of each value. -/
def distinct (records : List Record) : List Record :=
  (byValue records).filterMap List.head?

/-- The constants that repeat a value, each reported with the one that is kept for it. -/
def repeats (typeName : String) (records : List Record) : List Event :=
  (byValue records).flatMap fun
    | [] => []
    | kept :: others => others.map fun dropped =>
      .duplicate typeName kept.name dropped.name dropped.value

/-- Checks the constants and reduces them to one for each value, in ascending order. -/
def normalize (typeName : String) (records : List Record) : Traced (List Record) := do
  let _ ← Traced.ofExcept (commonSignedness typeName records)
  Traced.report (repeats typeName records)
  return distinct records

end EnumNames.Record
