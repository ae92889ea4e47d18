/-! Records that are filled from documents. A record says by its shape what belongs into it. Taking
a document apart and filling a record are the two parts of a decoder, which comes from elsewhere. -/
namespace EnumNames

/-- The kinds of values that messages tell apart. -/
inductive Kind
  | string
  | integer
  | floating
  | boolean
  | sequence
  | map
deriving DecidableEq, Repr

def Kind.word : Kind → String
  | .string => "string"
  | .integer => "integer"
  | .floating => "floating point"
  | .boolean => "boolean"
  | .sequence => "sequence"
  | .map => "map"

/-- A value of a document as it is handed over. -/
inductive Item
  | string (text : String)
  | boolean (value : Bool)
  /-- A value of another kind, with what messages write behind the kind. -/
  | other (kind : Kind) (details : String)
  /-- A value that cannot be held, and why. -/
  | refused (reason : String)
deriving DecidableEq, Repr

/-- The kind of a value that can be held. -/
def Item.kind? : Item → Option Kind
  | .string _ => some .string
  | .boolean _ => some .boolean
  | .other kind _ => some kind
  | .refused _ => none

/-- A key of a document and what stands under it, each with its place in the source. -/
structure Offer (Place : Type) where
  key : String
  keyPlace : Place
  item : Item
  itemPlace : Place
deriving DecidableEq, Repr

/-- What a field of a record takes, and how it gets into the record. -/
inductive Slot (α : Type)
  | string (put : String → α → α)
  | boolean (put : Bool → α → α)

namespace Slot

def kind : Slot α → Kind
  | .string _ => .string
  | .boolean _ => .boolean

/-- Puts a value of the right kind into a record. -/
def put? : Slot α → Item → Option (α → α)
  | .string put, .string text => some (put text)
  | .boolean put, .boolean value => some (put value)
  | _, _ => none

end Slot

/-- How a record is filled. Fields that are not offered stay as in the initial record, and a closed
record refuses keys that name none of its fields. -/
structure Shape (α : Type) where
  fields : List (String × Slot α)
  initial : α
  closed : Bool

/-- The field that a key names. -/
def Shape.slot? (shape : Shape α) (key : String) : Option (Slot α) := shape.fields.lookup key

/-- What takes documents apart and fills records from them. -/
structure Decoder (Place α : Type) where
  /-- What stands under the keys of a source in the order in which it is handed over, if the source
  is a document. -/
  offers? : (source : String) → Option (List (Offer Place))
  /-- The filled record, or what is objected and where. -/
  fill : Shape α → List (Offer Place) → Except (Place × String) α
  /-- The wording of an objection to a place of a source. -/
  wording : (source : String) → Place → (objection : String) → String

end EnumNames
