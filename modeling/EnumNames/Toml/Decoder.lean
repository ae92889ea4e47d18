import EnumNames.Decimal.Shortest
import EnumNames.Decoder
import EnumNames.Text.Quoted
import EnumNames.Toml.Document
import EnumNames.Toml.Excerpt

/-! A decoder of TOML documents. Keys are handed over in ascending order, a record is filled with
one value after the other, and the first that does not fit ends it. -/
namespace EnumNames.Toml

/-- What messages write behind the kind of a whole number. Beyond 64 bits they say how many it
takes, and beyond 128 there is nothing to write. -/
def integerDetails? (value : Int) : Option String :=
  let text := " `" ++ toString value ++ "`"
  if -0x8000000000000000 ≤ value ∧ value < 0x10000000000000000 then some text
  else if -0x80000000000000000000000000000000 ≤ value ∧
      value < 0x80000000000000000000000000000000 then some (text ++ " as i128")
  else if 0 ≤ value ∧ value < 0x100000000000000000000000000000000 then some (text ++ " as u128")
  else none

/-- A floating-point number in digits, none if it is too large for 64 bits. -/
def floatingText? : Floating → Option String
  | .nan => some "NaN"
  | .infinite negative => some (if negative then "-inf" else "inf")
  | .decimal negative coefficient exponent => do
    let digits ← match Decimal.Binary64.ofDecimal coefficient exponent with
      | .zero => some "0.0"
      | .finite value =>
        let (digits, place) := value.shortest
        some (Decimal.positional digits place)
      | .tooLarge => none
    return if negative then "-" ++ digits else digits

/-- What stands under a key, as it is handed over. -/
def item : Node → Item
  | .table .. => .other .map ""
  | .rows _ => .other .sequence ""
  | .value value =>
    match value with
    | .string text => .string text
    | .boolean value => .boolean value
    | .integer whole =>
      match whole.number? >>= integerDetails? with
      | some details => .other .integer details
      | none => .refused "integer number overflowed"
    | .floating number =>
      match floatingText? number with
      | some digits => .other .floating (" `" ++ digits ++ "`")
      | none => .refused "floating-point number overflowed"
    | .moment _ | .table _ => .other .map ""
    | .array _ => .other .sequence ""

def offer (entry : Entry) : Offer Extent :=
  ⟨entry.key.name, entry.key.extent, item entry.node, entry.extent⟩

/-- What is objected to a value of another kind than its field takes. -/
def wrongKind (slot : Slot α) (kind : Kind) (details : String) : String :=
  "invalid type: " ++ kind.word ++ details ++ ", expected a " ++ slot.kind.word

/-- What is objected to a value that does not fit its field. -/
def objection (slot : Slot α) : Item → String
  | .string text => wrongKind slot .string (" " ++ Text.quoted text)
  | .boolean value => wrongKind slot .boolean (" `" ++ toString value ++ "`")
  | .other kind details => wrongKind slot kind details
  | .refused reason => reason

/-- The names of fields in a message. -/
def alternatives (names : List String) : String :=
  " or ".intercalate (names.map fun name => "`" ++ name ++ "`")

/-- Fills one field, or objects. -/
def take (shape : Shape α) (record : α) (offer : Offer Extent) : Except (Extent × String) α :=
  match shape.slot? offer.key with
  | some slot =>
    match slot.put? offer.item with
    | some put => .ok (put record)
    | none => .error (offer.itemPlace, objection slot offer.item)
  | none =>
    if shape.closed then
      .error (offer.keyPlace, "unknown field `" ++ offer.key ++ "`" ++
        (", expected " ++ alternatives (shape.fields.map Prod.fst)))
    else .ok record

/-- The decoder of documents within limits. -/
def decoder (limits : Limits) : Decoder Extent α where
  offers? source := (document? limits source.toList).map fun assembly =>
    (assembly.top.mergeSort fun left right => left.key.name ≤ right.key.name).map offer
  fill shape offers := offers.foldlM (take shape) shape.initial
  wording source place objection :=
    (Excerpt.ofExtent source.toList place).text ++ objection ++ "\n"

end EnumNames.Toml
