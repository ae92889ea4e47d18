import EnumNames.Decoder
import Mathlib.Data.List.Induction
import Mathlib.Data.List.Nodup

/-! Filling records. Of what fills them no more is asked than `Decoder.Fills`: how it begins, what one
more offer changes, and that an objection ends it. From that follows what comes of any number of
offers with different keys: the record with all of them, or the objection to the first that fits no
field. -/
namespace EnumNames

variable {Place α : Type}

namespace Shape

/-- What an offer does to a record, if it fits a field. -/
def put? (shape : Shape α) (offer : Offer Place) : Option (α → α) :=
  (shape.slot? offer.key).bind (·.put? offer.item)

/-- Changes a record by an offer that fits a field. -/
def set (shape : Shape α) (record : α) (offer : Offer Place) : α :=
  match shape.put? offer with
  | some put => put record
  | none => record

/-- The record with all offers that fit a field. -/
def filled (shape : Shape α) (offers : List (Offer Place)) : α :=
  offers.foldl shape.set shape.initial

/-- What may be objected to an offer that fits no field: its key, its kind, or whatever keeps its
value from being held. -/
inductive Objects (shape : Shape α) (offer : Offer Place) : Place × String → Prop
  | unknown (absent : shape.slot? offer.key = none) (details : String) :
    Objects shape offer (offer.keyPlace, "unknown field `" ++ offer.key ++ "`" ++ details)
  | wrongKind {slot : Slot α} {kind : Kind} (field : shape.slot? offer.key = some slot)
      (found : offer.item.kind? = some kind) (details : String) :
    Objects shape offer (offer.itemPlace,
      "invalid type: " ++ kind.word ++ details ++ ", expected a " ++ slot.kind.word)
  | refused {slot : Slot α} {reason : String} (field : shape.slot? offer.key = some slot)
      (held : offer.item = .refused reason) : Objects shape offer (offer.itemPlace, reason)

end Shape

/-- What is relied on where records are filled. -/
structure Decoder.Fills (decoder : Decoder Place α) : Prop where
  /-- Fields that are missing are as in the initial record. -/
  initial (shape : Shape α) : decoder.fill shape [] = .ok shape.initial
  /-- A value of the right kind gets into the field that its key names, if the key is new. -/
  puts {shape : Shape α} {offers : List (Offer Place)} {record : α} {offer : Offer Place}
    {put : α → α} (before : decoder.fill shape offers = .ok record)
    (new : offer.key ∉ offers.map Offer.key) (fits : shape.put? offer = some put) :
    decoder.fill shape (offers ++ [offer]) = .ok (put record)
  /-- A closed record refuses any other offer. -/
  objects {shape : Shape α} {offers : List (Offer Place)} {record : α} {offer : Offer Place}
    (before : decoder.fill shape offers = .ok record) (new : offer.key ∉ offers.map Offer.key)
    (closed : shape.closed) (offends : shape.put? offer = none) :
    ∃ objection, shape.Objects offer objection ∧
      decoder.fill shape (offers ++ [offer]) = .error objection
  /-- Nothing is looked at behind an objection. -/
  ends {shape : Shape α} {offers : List (Offer Place)} {objection : Place × String}
    (before : decoder.fill shape offers = .error objection) (offer : Offer Place) :
    decoder.fill shape (offers ++ [offer]) = .error objection
  /-- An objection stands in its wording. -/
  shows (source : String) (place : Place) (objection : String) :
    ∃ before behind, decoder.wording source place objection = before ++ objection ++ behind

namespace Decoder.Fills
variable {decoder : Decoder Place α} (fills : decoder.Fills) {shape : Shape α}
  {offers : List (Offer Place)}
include fills

theorem fill_of_fits (nodup : (offers.map Offer.key).Nodup)
    (fits : ∀ offer ∈ offers, (shape.put? offer).isSome) :
    decoder.fill shape offers = .ok (shape.filled offers) := by
  induction offers using List.reverseRecOn with
  | nil => exact fills.initial shape
  | append_singleton offers offer ih =>
    rw [List.map_append, List.map_singleton, List.nodup_append] at nodup
    obtain ⟨put, fit⟩ := Option.isSome_iff_exists.mp (fits offer (by simp))
    have before := ih nodup.1 fun other member => fits other (List.mem_append_left _ member)
    rw [fills.puts before (fun member => nodup.2.2 _ member _ (by simp) rfl) fit]
    simp only [Shape.filled, List.foldl_append, List.foldl_cons, List.foldl_nil, Shape.set, fit]

/-- An objection stays, whatever is offered behind it. -/
theorem fill_append {objection : Place × String}
    (before : decoder.fill shape offers = .error objection) (behind : List (Offer Place)) :
    decoder.fill shape (offers ++ behind) = .error objection := by
  induction behind using List.reverseRecOn with
  | nil => rwa [List.append_nil]
  | append_singleton behind offer ih =>
    rw [← List.append_assoc]
    exact fills.ends ih offer

/-- The first offer that fits no field decides. -/
theorem fill_of_offends (closed : shape.closed) {offer : Offer Place} {behind : List (Offer Place)}
    (nodup : ((offers ++ offer :: behind).map Offer.key).Nodup)
    (fits : ∀ other ∈ offers, (shape.put? other).isSome) (offends : shape.put? offer = none) :
    ∃ objection, shape.Objects offer objection ∧
      decoder.fill shape (offers ++ offer :: behind) = .error objection := by
  rw [List.map_append, List.map_cons, List.nodup_append] at nodup
  obtain ⟨objection, objects, stopped⟩ := fills.objects (fills.fill_of_fits nodup.1 fits)
    (fun member => nodup.2.2 _ member _ List.mem_cons_self rfl) closed offends
  refine ⟨objection, objects, ?_⟩
  have whole := fills.fill_append stopped behind
  rwa [List.append_assoc, List.singleton_append] at whole

end Decoder.Fills

/-! ### The fields of a filled record -/

section
variable {shape : Shape α} {β : Type} {field : α → β} {key : String}
  (keeps : ∀ {record : α} {offer : Offer Place}, offer.key ≠ key →
    field (shape.set record offer) = field record)
include keeps

/-- Without a key its field stays as it is. -/
theorem Shape.foldl_set_of_notMem {offers : List (Offer Place)} (absent : key ∉ offers.map Offer.key)
    (record : α) : field (offers.foldl shape.set record) = field record := by
  induction offers generalizing record with
  | nil => rfl
  | cons offer offers ih =>
    rw [List.map_cons, List.mem_cons, not_or] at absent
    rw [List.foldl_cons, ih absent.2, keeps (Ne.symm absent.1)]

/-- The only offer under a key sets its field. -/
theorem Shape.filled_of_mem {offers : List (Offer Place)} (nodup : (offers.map Offer.key).Nodup)
    {offer : Offer Place} (member : offer ∈ offers) (named : offer.key = key) {value : β}
    (sets : ∀ record, field (shape.set record offer) = value) :
    field (shape.filled offers) = value := by
  obtain ⟨before, behind, rfl⟩ := List.append_of_mem member
  rw [List.map_append, List.map_cons] at nodup
  have last : key ∉ behind.map Offer.key :=
    named ▸ (List.nodup_cons.mp (List.nodup_append.mp nodup).2.1).1
  rw [filled, List.foldl_append, List.foldl_cons, foldl_set_of_notMem keeps last, sets]

end

end EnumNames
