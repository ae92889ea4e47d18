import EnumNames.Offsets
import EnumNames.Run
import EnumNames.Text.Bytes

/-! Names packed into one text and found by value. -/
namespace EnumNames

/-- The bytes from `start` up to `stop`. -/
structure Span where
  start : UInt32
  stop : UInt32
deriving DecidableEq, Repr

/-- A finite map from words to spans, ascending by word, with one span for each word. -/
abbrev SpanMap := List (UInt64 × Span)

namespace SpanMap

/-- Puts a span under a word in place of any that is there. -/
def insert (word : UInt64) (span : Span) : SpanMap → SpanMap
  | [] => [(word, span)]
  | (key, old) :: spans =>
    if word < key then (word, span) :: (key, old) :: spans
    else if word = key then (word, span) :: spans
    else (key, old) :: insert word span spans

/-- The span under a word. -/
def get? : SpanMap → UInt64 → Option Span
  | [], _ => none
  | (key, span) :: spans, word => if key = word then some span else get? spans word

theorem get?_insert (spans : SpanMap) (word key : UInt64) (span : Span) :
    (spans.insert word span).get? key = if word = key then some span else spans.get? key := by
  induction spans with
  | nil => rfl
  | cons entry spans ih =>
    obtain ⟨other, old⟩ := entry
    simp only [insert]
    split
    · rfl
    · split
      · subst other
        simp only [get?]
        split <;> rfl
      · simp only [get?, ih]
        split
        · subst other
          simp_all
        · rfl

end SpanMap

/-- The names of all members in one text, with the span of each value. -/
structure SpanTable where
  blob : String
  width : Width
  spans : SpanMap
deriving DecidableEq, Repr

namespace SpanTable

/-- A position as a 32-bit offset. -/
def offset (position : Nat) : Except Error UInt32 :=
  if position < Width.w32.capacity then .ok position.toUInt32 else .error (.indexOverflow position)

/-- Appends the name of a record; a value that comes again gets the new span. -/
def append (table : String × SpanMap) (record : Record) : Except Error (String × SpanMap) := do
  let blob := table.1 ++ record.name
  let start ← offset table.1.utf8ByteSize
  let stop ← offset blob.utf8ByteSize
  return (blob, table.2.insert record.value ⟨start, stop⟩)

/-- Packs the names of all members, run by run. -/
def build (runs : List Run) : Except Error SpanTable := do
  let (blob, spans) ← (runs.flatMap Run.records).foldlM append ("", [])
  let width ← Width.forLength blob.utf8ByteSize
  return ⟨blob, width, spans⟩

/-- How many values have a name. -/
def size (table : SpanTable) : Nat := table.spans.length

def isEmpty (table : SpanTable) : Bool := table.spans.isEmpty

/-- The span of the name of a value. -/
def span? (table : SpanTable) (word : UInt64) : Option Span := table.spans.get? word

/-- The name of a value. -/
def name? (table : SpanTable) (word : UInt64) : Option String := do
  let span ← table.span? word
  Text.between? table.blob span.start.toNat span.stop.toNat

end SpanTable
end EnumNames
