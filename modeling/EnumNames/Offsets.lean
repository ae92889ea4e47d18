import EnumNames.Error

/-! Byte offsets into a text, stored in the narrowest words that hold the length of the text. -/
namespace EnumNames

/-- The width of a stored offset. -/
inductive Width
  | w8
  | w16
  | w32
deriving DecidableEq, Repr

namespace Width

def bits : Width → Nat
  | .w8 => 8
  | .w16 => 16
  | .w32 => 32

/-- The least number that a word of this width no longer holds. -/
def capacity : Width → Nat
  | .w8 => 0x100
  | .w16 => 0x10000
  | .w32 => 0x100000000

/-- The narrowest width that holds `length`. -/
def forLength (length : Nat) : Except Error Width :=
  if length < capacity .w8 then .ok .w8
  else if length < capacity .w16 then .ok .w16
  else if length < capacity .w32 then .ok .w32
  else .error (.indexOverflow length)

/-- The wider of two. -/
def max : Width → Width → Width
  | .w32, _ | _, .w32 => .w32
  | .w16, _ | _, .w16 => .w16
  | .w8, .w8 => .w8

theorem bits_max (left right : Width) : (left.max right).bits = Nat.max left.bits right.bits := by
  cases left <;> cases right <;> rfl

theorem forLength_fits {length : Nat} {width : Width} (h : forLength length = .ok width) :
    length < width.capacity := by
  unfold forLength at h
  split at h
  · cases h; assumption
  split at h
  · cases h; assumption
  split at h
  · cases h; assumption
  · cases h

end Width

/-- A list of offsets at one of the three widths. -/
inductive OffsetTable
  | w8 (offsets : List UInt8)
  | w16 (offsets : List UInt16)
  | w32 (offsets : List UInt32)
deriving DecidableEq, Repr

namespace OffsetTable

/-- Stores each offset modulo the width. -/
def pack (offsets : List Nat) : Width → OffsetTable
  | .w8 => .w8 (offsets.map Nat.toUInt8)
  | .w16 => .w16 (offsets.map Nat.toUInt16)
  | .w32 => .w32 (offsets.map Nat.toUInt32)

def width : OffsetTable → Width
  | .w8 _ => .w8
  | .w16 _ => .w16
  | .w32 _ => .w32

/-- The stored offsets as numbers. -/
def toList : OffsetTable → List Nat
  | .w8 offsets => offsets.map UInt8.toNat
  | .w16 offsets => offsets.map UInt16.toNat
  | .w32 offsets => offsets.map UInt32.toNat

def size (table : OffsetTable) : Nat := table.toList.length

def isEmpty (table : OffsetTable) : Bool := table.size == 0

/-- The offset at an index. -/
def get? : OffsetTable → UInt64 → Option Nat
  | .w8 offsets, index => offsets[index.toNat]?.map UInt8.toNat
  | .w16 offsets, index => offsets[index.toNat]?.map UInt16.toNat
  | .w32 offsets, index => offsets[index.toNat]?.map UInt32.toNat

theorem get?_eq (table : OffsetTable) (index : UInt64) :
    table.get? index = table.toList[index.toNat]? := by
  cases table <;> simp [get?, toList]

@[simp] theorem width_pack (offsets : List Nat) (width : Width) :
    (pack offsets width).width = width := by
  cases width <;> rfl

/-- Nothing is lost when every offset fits the width. -/
theorem toList_pack {offsets : List Nat} {width : Width}
    (h : ∀ offset ∈ offsets, offset < width.capacity) : (pack offsets width).toList = offsets := by
  cases width <;>
    · simp only [pack, toList, List.map_map]
      refine (List.map_congr_left fun offset member => ?_).trans (List.map_id _)
      have := h offset member
      simp only [Width.capacity] at this
      simp only [Function.comp_apply, id_eq, Nat.toUInt8, Nat.toUInt16, Nat.toUInt32,
        UInt8.toNat_ofNat', UInt16.toNat_ofNat', UInt32.toNat_ofNat']
      omega

end OffsetTable
end EnumNames
