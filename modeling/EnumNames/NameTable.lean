import EnumNames.Offsets
import EnumNames.Record
import EnumNames.Text.Bytes

/-! Names packed into one text. The name of member `k` stands between the offsets `k` and `k + 1`. -/
namespace EnumNames

/-- The names one after the other, and the byte offsets at which they meet. -/
structure NameTable where
  blob : String
  offsets : OffsetTable
deriving DecidableEq, Repr

namespace NameTable

/-- Where the names begin when they stand one after the other, and where the last one ends. -/
def boundaries (names : List String) : List Nat :=
  names.scanl (fun offset name => offset + name.utf8ByteSize) 0

/-- Packs the names of the records in order. -/
def build (records : List Record) : Except Error NameTable := do
  let names := records.map Record.name
  let blob := String.join names
  let width ← Width.forLength blob.utf8ByteSize
  return ⟨blob, .pack (boundaries names) width⟩

def width (table : NameTable) : Width := table.offsets.width

/-- The name of the member at `index`. -/
def name? (table : NameTable) (index : UInt64) : Option String := do
  let start ← table.offsets.get? index
  let stop ← table.offsets.get? (index + 1)
  Text.between? table.blob start stop

end NameTable
end EnumNames
