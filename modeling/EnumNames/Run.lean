import EnumNames.Record
import EnumNames.Traced

/-! Maximal runs of constants whose values follow one another. The successor of a word is taken
modulo 2^64, so in a signed type -1 is followed by 0. -/
namespace EnumNames

/-- A run has at least one member. -/
structure Run where
  first : Record
  others : List Record
deriving DecidableEq, Repr

namespace Run

def records (run : Run) : List Record := run.first :: run.others

def size (run : Run) : Nat := run.records.length

/-- The word of the first member. -/
def min (run : Run) : UInt64 := run.first.value

/-- The word of the last member. -/
def max (run : Run) : UInt64 := (run.others.getLast?.getD run.first).value

def signedness (run : Run) : Signedness := run.first.signedness

/-- Whether a word lies between the first and the last member. -/
def contains (run : Run) (word : UInt64) : Bool :=
  (run.signedness.compare run.min word).isLE && (run.signedness.compare word run.max).isLE

/-- The place of a word that lies in the run, counted from the first member. -/
def position? (run : Run) (word : UInt64) : Option UInt64 :=
  if run.contains word then some (word - run.min) else none

/-- Whether the second value is the successor of the first. -/
def follows (left right : Record) : Bool := right.value == left.value + 1

def ofList? : List Record → Option Run
  | [] => none
  | first :: others => some ⟨first, others⟩

/-- Cuts a list wherever a value does not follow the one before it. -/
def split (records : List Record) : List Run :=
  (records.splitBy follows).filterMap ofList?

/-- Cuts a list into runs and reports how many there are. -/
def splitReported (records : List Record) : Traced (List Run) := do
  let runs := split records
  Traced.report [.split runs.length]
  return runs

@[simp] theorem records_ne_nil (run : Run) : run.records ≠ [] := List.cons_ne_nil _ _

end Run
end EnumNames
