import EnumNames.Proofs.ByteOrder
import EnumNames.Proofs.Decoder
import EnumNames.Proofs.Toml.Document
import EnumNames.Proofs.Toml.Limits
import EnumNames.Toml.Decoder

/-! Decoders of TOML documents. `Decoder.Parses` is what is asked of one: whatever the grammar says
that stands under the keys of a document is handed over, in the order of the bytes of the keys. The
decoder of this library does what is asked, so nothing is asked in vain. -/
namespace EnumNames
namespace Toml

/-- The kind of what stands under a key. A date or a time is taken for a map. -/
def Node.kind : Node → Kind
  | .table .. => .map
  | .rows _ => .sequence
  | .value given =>
    match given with
    | .string _ => .string
    | .integer _ => .integer
    | .floating _ => .floating
    | .boolean _ => .boolean
    | .moment _ | .table _ => .map
    | .array _ => .sequence

/-- What 128 bits hold, with a sign or without one. -/
def FitsWide (value : Int) : Prop :=
  -0x80000000000000000000000000000000 ≤ value ∧ value < 0x100000000000000000000000000000000

instance : DecidablePred FitsWide := fun _ => inferInstanceAs (Decidable (_ ∧ _))

/-- A number that cannot be held: a whole one beyond 128 bits, or a decimal one that is rounded to
none of the 64-bit floating-point numbers. -/
inductive TooLarge : Node → Prop
  | integer {whole : Whole} (outside : ∀ value ∈ whole.number?, ¬FitsWide value) :
    TooLarge (.value (.integer whole))
  | decimal {negative : Bool} {coefficient : Nat} {exponent : Int}
      (rounded : Decimal.Binary64.ofDecimal coefficient exponent = .tooLarge) :
    TooLarge (.value (.floating (.decimal negative coefficient exponent)))

/-- How what stands under a key is handed over. -/
inductive Represents : Node → Item → Prop
  | string (text : String) : Represents (.value (.string text)) (.string text)
  | boolean (value : Bool) : Represents (.value (.boolean value)) (.boolean value)
  | other {node : Node} {kind : Kind} (same : node.kind = kind) (noString : kind ≠ .string)
      (noBoolean : kind ≠ .boolean) (small : ¬TooLarge node) (details : String) :
    Represents node (.other kind details)
  | refused {node : Node} (large : TooLarge node) (reason : String) :
    Represents node (.refused reason)

/-- What stands under a key is handed over under that key. -/
structure HandsOver (entry : String × Node) (offer : Offer Place) : Prop where
  key : offer.key = entry.1
  item : Represents entry.2 offer.item

/-- All that stands under keys is handed over, and nothing else. -/
structure HandsOverAll (contents : List (String × Node)) (offers : List (Offer Place)) : Prop where
  every : ∀ entry ∈ contents, ∃ offer ∈ offers, HandsOver entry offer
  only : ∀ offer ∈ offers, ∃ entry ∈ contents, HandsOver entry offer

end Toml

/-- What is relied on where documents are taken apart. Where they are parsed however deep they go, it
holds for all limits. -/
structure Decoder.Parses (decoder : Decoder Place α) (limits : Toml.Limits) : Prop where
  /-- Of a document within the limits all that stands under its keys is handed over. -/
  reads {source : String} {contents : List (String × Toml.Node)}
    (document : Toml.Document limits source.toList contents) :
    ∃ offers, decoder.offers? source = some offers ∧ Toml.HandsOverAll contents offers
  /-- The keys ascend in the order of their bytes. -/
  ascends {source : String} {offers : List (Offer Place)}
    (given : decoder.offers? source = some offers) :
    offers.Pairwise fun left right => Text.utf8 left.key < Text.utf8 right.key

/-- What parses documents within wide limits parses those within narrow ones. -/
theorem Decoder.Parses.narrow {decoder : Decoder Place α} {limits wider : Toml.Limits}
    (parses : decoder.Parses wider) (parents : limits.parents ≤ wider.parents)
    (nesting : limits.nesting ≤ wider.nesting) : decoder.Parses limits where
  reads document := parses.reads (document.mono parents nesting)
  ascends := parses.ascends

theorem Decoder.Parses.nodup {decoder : Decoder Place α} {limits : Toml.Limits}
    (parses : decoder.Parses limits) {source : String} {offers : List (Offer Place)}
    (given : decoder.offers? source = some offers) : (offers.map Offer.key).Nodup := by
  refine List.pairwise_map.mpr ((parses.ascends given).imp fun less same => ?_)
  rw [same] at less
  exact List.lt_irrefl _ less

namespace Toml

/-! ### Kinds -/

theorem Node.kind_eq_string_iff {node : Node} :
    node.kind = .string ↔ ∃ text, node = .value (.string text) := by
  cases node with
  | table | rows => simp [kind]
  | value given => cases given <;> simp [kind]

theorem Node.kind_eq_boolean_iff {node : Node} :
    node.kind = .boolean ↔ ∃ value, node = .value (.boolean value) := by
  cases node with
  | table | rows => simp [kind]
  | value given => cases given <;> simp [kind]

theorem TooLarge.kind {node : Node} (large : TooLarge node) :
    node.kind = .integer ∨ node.kind = .floating := by
  cases large with
  | integer => exact .inl rfl
  | decimal => exact .inr rfl

/-- A value gets into a field exactly if it is of the kind that the field takes. -/
theorem Represents.isSome_put?_iff {node : Node} {item : Item} (represents : Represents node item)
    (slot : Slot α) : (slot.put? item).isSome ↔ node.kind = slot.kind := by
  cases represents with
  | string text => cases slot <;> simp [Slot.put?, Slot.kind, Node.kind]
  | boolean value => cases slot <;> simp [Slot.put?, Slot.kind, Node.kind]
  | other same noString noBoolean _ _ =>
    subst same
    cases slot <;> simp [Slot.put?, Slot.kind, noString, noBoolean]
  | refused large _ =>
    rcases large.kind with same | same <;> cases slot <;> simp [Slot.put?, Slot.kind, same]

/-- The kind of a value that can be held is the one of what it stands for. -/
theorem Represents.kind?_eq {node : Node} {item : Item} (represents : Represents node item)
    {kind : Kind} (held : item.kind? = some kind) : node.kind = kind ∧ ¬TooLarge node := by
  cases represents with
  | string text =>
    cases held
    exact ⟨rfl, by nofun⟩
  | boolean value =>
    cases held
    exact ⟨rfl, by nofun⟩
  | other same _ _ small _ =>
    cases held
    exact ⟨same, small⟩
  | refused => cases held

theorem Represents.string_eq {text : String} {item : Item}
    (represents : Represents (.value (.string text)) item) : item = .string text := by
  cases represents with
  | string => rfl
  | other same noString => exact absurd same.symm noString
  | refused large => cases large

theorem Represents.boolean_eq {value : Bool} {item : Item}
    (represents : Represents (.value (.boolean value)) item) : item = .boolean value := by
  cases represents with
  | boolean => rfl
  | other same _ noBoolean => exact absurd same.symm noBoolean
  | refused large => cases large

theorem Represents.tooLarge {node : Node} {reason : String}
    (represents : Represents node (.refused reason)) : TooLarge node := by
  cases represents with
  | refused large _ => exact large

/-! ### What is handed over -/

theorem exists_integerDetails? {value : Int} (fits : FitsWide value) :
    ∃ details, integerDetails? value = some details := by
  simp only [integerDetails?]
  split
  · exact ⟨_, rfl⟩
  split
  · exact ⟨_, rfl⟩
  split
  · exact ⟨_, rfl⟩
  · unfold FitsWide at fits
    omega

theorem integerDetails?_eq_none {value : Int} (outside : ¬FitsWide value) :
    integerDetails? value = none := by
  unfold FitsWide at outside
  simp only [integerDetails?]
  rw [if_neg (by omega), if_neg (by omega), if_neg (by omega)]

theorem represents_integer (whole : Whole) :
    Represents (.value (.integer whole)) (item (.value (.integer whole))) := by
  by_cases large : TooLarge (.value (.integer whole))
  · have none : whole.number? >>= integerDetails? = none := by
      obtain ⟨outside⟩ := large
      refine Option.bind_eq_none_iff.mpr fun value number => ?_
      exact integerDetails?_eq_none (outside value number)
    simp only [item, none]
    exact .refused large _
  · obtain ⟨value, number, fits⟩ : ∃ value ∈ whole.number?, FitsWide value := by
      by_contra outside
      exact large (.integer fun value number fits => outside ⟨value, number, fits⟩)
    obtain ⟨details, text⟩ := exists_integerDetails? fits
    have found : whole.number? >>= integerDetails? = some details :=
      Option.bind_eq_some_iff.mpr ⟨value, number, text⟩
    simp only [item, found]
    exact @Represents.other _ .integer rfl nofun nofun large _

theorem floatingText?_eq_none_iff {number : Floating} :
    floatingText? number = none ↔ TooLarge (.value (.floating number)) := by
  cases number with
  | nan => exact ⟨nofun, nofun⟩
  | infinite negative => exact ⟨nofun, nofun⟩
  | decimal negative coefficient exponent =>
    have large : TooLarge (.value (.floating (.decimal negative coefficient exponent))) ↔
        Decimal.Binary64.ofDecimal coefficient exponent = .tooLarge :=
      ⟨fun | .decimal rounded => rounded, .decimal⟩
    rw [large]
    cases rounded : Decimal.Binary64.ofDecimal coefficient exponent <;>
      simp [floatingText?, rounded]

theorem represents_floating (number : Floating) :
    Represents (.value (.floating number)) (item (.value (.floating number))) := by
  cases text : floatingText? number with
  | none =>
    simp only [item, text]
    exact .refused (floatingText?_eq_none_iff.mp text) _
  | some digits =>
    simp only [item, text]
    refine @Represents.other _ .floating rfl nofun nofun (fun large => ?_) _
    cases text.symm.trans (floatingText?_eq_none_iff.mpr large)

theorem represents_item (node : Node) : Represents node (item node) := by
  cases node with
  | table number origin => exact @Represents.other _ .map rfl nofun nofun (by nofun) _
  | rows last => exact @Represents.other _ .sequence rfl nofun nofun (by nofun) _
  | value value =>
    cases value with
    | string text => exact .string text
    | boolean value => exact .boolean value
    | integer whole => exact represents_integer whole
    | floating number => exact represents_floating number
    | moment text => exact @Represents.other _ .map rfl nofun nofun (by nofun) _
    | array elements => exact @Represents.other _ .sequence rfl nofun nofun (by nofun) _
    | table entries => exact @Represents.other _ .map rfl nofun nofun (by nofun) _

/-- The decoder hands over what stands under the keys of a document. -/
theorem parses_decoder (limits : Limits) : (decoder limits : Decoder Extent α).Parses limits where
  reads {source contents} document := by
    obtain ⟨assembly, read, rfl⟩ := document.exists_document?
    refine ⟨_, by simp only [decoder, read, Option.map_some]; rfl, ?_⟩
    constructor
    · intro entry member
      obtain ⟨stands, inside, rfl⟩ := List.mem_map.mp member
      refine ⟨offer stands, List.mem_map_of_mem ?_, rfl, represents_item stands.node⟩
      exact List.mem_mergeSort.mpr inside
    · intro given member
      obtain ⟨stands, inside, rfl⟩ := List.mem_map.mp member
      refine ⟨(stands.key.name, stands.node), ?_, rfl, represents_item stands.node⟩
      exact List.mem_map_of_mem (List.mem_mergeSort.mp inside)
  ascends {source offers} given := by
    obtain ⟨assembly, read, rfl⟩ := Option.map_eq_some_iff.mp given
    have perm := List.mergeSort_perm assembly.top fun left right => left.key.name ≤ right.key.name
    have nodup := (perm.map (·.key.name)).nodup_iff.mpr (document?_distinct read).nodup_top
    have sorted : (assembly.top.mergeSort fun left right => left.key.name ≤ right.key.name).Pairwise
        fun left right => decide (left.key.name ≤ right.key.name) := by
      refine List.pairwise_mergeSort (fun _ _ _ first second => ?_) (fun left right => ?_) _
      · exact decide_eq_true ((of_decide_eq_true first).trans (of_decide_eq_true second))
      · simpa using le_total left.key.name right.key.name
    refine List.pairwise_map.mpr (sorted.imp₂ (fun left right below differ => ?_)
      (List.pairwise_map.mp nodup))
    exact Text.utf8_lt_iff.mpr (lt_of_le_of_ne (of_decide_eq_true below) differ)

/-! ### How records are filled -/

theorem objects_objection {shape : Shape α} {offer : Offer Extent} {slot : Slot α}
    (field : shape.slot? offer.key = some slot) :
    shape.Objects offer (offer.itemPlace, objection slot offer.item) := by
  have wrong {kind : Kind} (found : offer.item.kind? = some kind) (details : String) :
      shape.Objects offer (offer.itemPlace, wrongKind slot kind details) :=
    .wrongKind field found details
  cases held : offer.item with
  | string text => exact wrong (by rw [held]; rfl) _
  | boolean value => exact wrong (by rw [held]; rfl) _
  | other kind details => exact wrong (by rw [held]; rfl) _
  | refused reason => exact .refused field held

/-- An offer that fits no field of a closed record is objected to. -/
theorem exists_take_eq_error {shape : Shape α} (closed : shape.closed) {offer : Offer Extent}
    (offends : shape.put? offer = none) (record : α) :
    ∃ objection, shape.Objects offer objection ∧ take shape record offer = .error objection := by
  cases field : shape.slot? offer.key with
  | none =>
    refine ⟨_, .unknown field (", expected " ++ alternatives (shape.fields.map Prod.fst)), ?_⟩
    simp only [take, field, if_pos closed]
  | some slot =>
    rw [Shape.put?, field, Option.bind_some] at offends
    exact ⟨_, objects_objection field, by simp only [take, field, offends]⟩

theorem take_of_fits {shape : Shape α} {offer : Offer Extent} {put : α → α}
    (fits : shape.put? offer = some put) (record : α) :
    take shape record offer = .ok (put record) := by
  obtain ⟨slot, field, puts⟩ := Option.bind_eq_some_iff.mp fits
  simp only [take, field, puts]

/-- One more offer is one more step, behind whatever has come of those before it. -/
theorem fill_append_singleton (limits : Limits) (shape : Shape α) (offers : List (Offer Extent))
    (offer : Offer Extent) : (decoder limits).fill shape (offers ++ [offer]) =
      ((decoder limits).fill shape offers >>= fun record => take shape record offer) := by
  simp [decoder]

/-- The decoder fills records from what is handed over. -/
theorem fills_decoder (limits : Limits) : (decoder limits : Decoder Extent α).Fills where
  initial shape := rfl
  puts before _ fits := by
    rw [fill_append_singleton, before]
    exact take_of_fits fits _
  objects {shape offers record offer} before _ closed offends := by
    obtain ⟨objection, objects, taken⟩ := exists_take_eq_error closed offends record
    exact ⟨objection, objects, by rw [fill_append_singleton, before]; exact taken⟩
  ends before offer := by
    rw [fill_append_singleton, before]
    rfl
  shows source place objection := ⟨_, _, rfl⟩

end Toml
end EnumNames
