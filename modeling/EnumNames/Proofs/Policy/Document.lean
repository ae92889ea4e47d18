import EnumNames.Policy.Document
import EnumNames.Proofs.Toml.Decoder
import EnumNames.Proofs.Toml.Flat

/-! Policies described by documents, whatever takes the documents apart. A document says nothing else
than a policy exactly if each of its keys is known and has the right kind of value. Otherwise its
keys are handed over in ascending order, so the least key that does not fit decides the message. -/
namespace EnumNames.Policy
open Toml

theorem commentKey_ne_trimKey : commentKey ≠ trimKey := by decide

/-- What stands under a key and has a place in a policy. -/
def Fits (entry : String × Node) : Prop :=
  (entry.1 = trimKey ∧ ∃ text, entry.2 = .value (.string text)) ∨
    (entry.1 = commentKey ∧ ∃ value, entry.2 = .value (.boolean value))

/-- What a policy has from a document: what stands under its two keys, or what the plain policy
has. -/
structure Describes (contents : List (String × Node)) (policy : Policy) : Prop where
  trimPrefix : ∀ text, (trimKey, .value (.string text)) ∈ contents → policy.trimPrefix = text
  noTrimPrefix : trimKey ∉ contents.map Prod.fst → policy.trimPrefix = ""
  lineComment : ∀ value, (commentKey, .value (.boolean value)) ∈ contents →
    policy.lineComment = value
  noLineComment : commentKey ∉ contents.map Prod.fst → policy.lineComment = false

/-- An entry without a place in a policy, with the least key of all such entries in the order of the
bytes. -/
structure LeastOffender (contents : List (String × Node)) (entry : String × Node) : Prop where
  member : entry ∈ contents
  offends : ¬Fits entry
  least : ∀ other ∈ contents, ¬Fits other → other = entry ∨ Text.utf8 entry.1 < Text.utf8 other.1

/-- The kind of what belongs under a key. -/
def expected? (key : String) : Option Kind :=
  if key = trimKey then some .string else if key = commentKey then some .boolean else none

/-- What is objected to an entry, and where: to its key if it is unknown, and otherwise to its kind,
which is named with the one that it should have. To a number that is too large is objected whatever
it was refused for. -/
inductive Concerns (entry : String × Node) (offer : Offer Place) : Place × String → Prop
  | unknownField (unknown : expected? entry.1 = none) (details : String) :
    Concerns entry offer (offer.keyPlace, "unknown field `" ++ entry.1 ++ "`" ++ details)
  | invalidType {expected : Kind} (known : expected? entry.1 = some expected)
      (small : ¬TooLarge entry.2) (details : String) :
    Concerns entry offer (offer.itemPlace,
      "invalid type: " ++ entry.2.kind.word ++ details ++ ", expected a " ++ expected.word)
  | tooLarge {expected : Kind} {reason : String} (known : expected? entry.1 = some expected)
      (large : TooLarge entry.2) (refused : offer.item = .refused reason) :
    Concerns entry offer (offer.itemPlace, reason)

/-- What is reported about an entry of a source: a text with an objection to the entry in it, worded
for its place. -/
inductive Reports (decoder : Decoder Place Policy) (source : String) (entry : String × Node) :
    String → Prop
  | mk {offers : List (Offer Place)} {offer : Offer Place} {place : Place}
      {objection before behind : String} (given : decoder.offers? source = some offers)
      (member : offer ∈ offers) (handed : HandsOver entry offer)
      (concerns : Concerns entry offer (place, objection))
      (worded : decoder.wording source place objection = before ++ objection ++ behind) :
    Reports decoder source entry ("invalid naming policy: " ++ (before ++ objection ++ behind))

/-- A document whose entries all have a place describes one policy. -/
theorem Describes.eq {contents : List (String × Node)} {policy other : Policy}
    (describes : Describes contents policy) (fits : ∀ entry ∈ contents, Fits entry)
    (too : Describes contents other) : policy = other := by
  have trim : policy.trimPrefix = other.trimPrefix := by
    by_cases present : trimKey ∈ contents.map Prod.fst
    · obtain ⟨⟨key, node⟩, member, rfl⟩ := List.mem_map.mp present
      rcases fits _ member with ⟨_, text, rfl⟩ | ⟨named, _⟩
      · rw [describes.trimPrefix text member, too.trimPrefix text member]
      · exact absurd named commentKey_ne_trimKey.symm
    · rw [describes.noTrimPrefix present, too.noTrimPrefix present]
  have comment : policy.lineComment = other.lineComment := by
    by_cases present : commentKey ∈ contents.map Prod.fst
    · obtain ⟨⟨key, node⟩, member, rfl⟩ := List.mem_map.mp present
      rcases fits _ member with ⟨named, _⟩ | ⟨_, value, rfl⟩
      · exact absurd named commentKey_ne_trimKey
      · rw [describes.lineComment value member, too.lineComment value member]
    · rw [describes.noLineComment present, too.noLineComment present]
  obtain ⟨_, _⟩ := policy
  obtain ⟨_, _⟩ := other
  exact congrArg₂ Policy.mk trim comment

/-! ### The fields of a policy -/

theorem slot?_eq (key : String) : shape.slot? key =
    if key = trimKey then some trimSlot else if key = commentKey then some commentSlot else none := by
  by_cases trim : key = trimKey
  · simp [Shape.slot?, shape, trim]
  have noTrim : (key == trimKey) = false := beq_eq_false_iff_ne.mpr trim
  by_cases comment : key = commentKey
  · simp [Shape.slot?, shape, List.lookup_cons, ← comment, noTrim, trim]
  · have noComment : (key == commentKey) = false := beq_eq_false_iff_ne.mpr comment
    simp [Shape.slot?, shape, List.lookup_cons, noTrim, noComment, trim, comment]

theorem map_kind_slot? (key : String) : (shape.slot? key).map Slot.kind = expected? key := by
  rw [slot?_eq, expected?]
  split
  · rfl
  split
  · rfl
  · rfl

theorem fits_iff {entry : String × Node} : Fits entry ↔ expected? entry.1 = some entry.2.kind := by
  rw [Fits, ← Node.kind_eq_string_iff, ← Node.kind_eq_boolean_iff, expected?]
  by_cases trim : entry.1 = trimKey
  · simp [trim, commentKey_ne_trimKey.symm, eq_comm]
  by_cases comment : entry.1 = commentKey
  · simp [comment, commentKey_ne_trimKey, eq_comm]
  · simp [trim, comment]

section
variable {Place : Type} {offer : Offer Place}

/-- An offer gets into a policy exactly if it stands for an entry that fits. -/
theorem isSome_put?_iff {entry : String × Node} (handed : HandsOver entry offer) :
    (shape.put? offer).isSome ↔ Fits entry := by
  rw [fits_iff, ← map_kind_slot?, Shape.put?, handed.key]
  cases shape.slot? entry.1 with
  | none => simp
  | some slot =>
    rw [Option.bind_some, handed.item.isSome_put?_iff slot, Option.map_some, Option.some_inj]
    exact eq_comm

theorem put?_trimKey (named : offer.key = trimKey) :
    shape.put? offer = trimSlot.put? offer.item := by
  rw [Shape.put?, slot?_eq, if_pos named, Option.bind_some]

theorem put?_commentKey (named : offer.key = commentKey) :
    shape.put? offer = commentSlot.put? offer.item := by
  rw [Shape.put?, slot?_eq, if_neg (named ▸ commentKey_ne_trimKey), if_pos named, Option.bind_some]

theorem put?_unknown (noTrim : offer.key ≠ trimKey) (noComment : offer.key ≠ commentKey) :
    shape.put? offer = none := by
  rw [Shape.put?, slot?_eq, if_neg noTrim, if_neg noComment, Option.bind_none]

theorem trimPrefix_set {policy : Policy} (other : offer.key ≠ trimKey) :
    (shape.set policy offer).trimPrefix = policy.trimPrefix := by
  unfold Shape.set
  by_cases comment : offer.key = commentKey
  · rw [put?_commentKey comment]
    cases offer.item <;> rfl
  · rw [put?_unknown other comment]

theorem lineComment_set {policy : Policy} (other : offer.key ≠ commentKey) :
    (shape.set policy offer).lineComment = policy.lineComment := by
  unfold Shape.set
  by_cases trim : offer.key = trimKey
  · rw [put?_trimKey trim]
    cases offer.item <;> rfl
  · rw [put?_unknown trim other]

theorem trimPrefix_set_string {text : String} (named : offer.key = trimKey)
    (item : offer.item = .string text) (policy : Policy) :
    (shape.set policy offer).trimPrefix = text := by
  rw [Shape.set, put?_trimKey named, item]
  rfl

theorem lineComment_set_boolean {value : Bool} (named : offer.key = commentKey)
    (item : offer.item = .boolean value) (policy : Policy) :
    (shape.set policy offer).lineComment = value := by
  rw [Shape.set, put?_commentKey named, item]
  rfl

end

/-! ### Documents -/

/-- What may be objected to an offer concerns the entry that it is handed over for. -/
theorem concerns_of_objects {Place : Type} {offer : Offer Place} {entry : String × Node}
    {objection : Place × String} (handed : HandsOver entry offer)
    (objects : shape.Objects offer objection) : Concerns entry offer objection := by
  have known {slot : Slot Policy} (field : shape.slot? offer.key = some slot) :
      expected? entry.1 = some slot.kind := by
    rw [← map_kind_slot?, ← handed.key, field, Option.map_some]
  cases objects with
  | unknown absent details =>
    rw [handed.key]
    refine .unknownField ?_ details
    rw [← map_kind_slot?, ← handed.key, absent, Option.map_none]
  | wrongKind field found details =>
    obtain ⟨rfl, small⟩ := handed.item.kind?_eq found
    exact .invalidType (known field) small details
  | refused field held =>
    have represents := handed.item
    rw [held] at represents
    exact .tooLarge (known field) represents.tooLarge held

section
variable {Place : Type} {offers : List (Offer Place)} {contents : List (String × Node)}
  (all : HandsOverAll contents offers)
include all

/-- All offers together fill in what a document says about a policy. -/
theorem describes_filled (nodup : (offers.map Offer.key).Nodup) :
    Describes contents (shape.filled offers) := by
  have absent {key : String} (missing : key ∉ contents.map Prod.fst) :
      key ∉ offers.map Offer.key := by
    intro named
    obtain ⟨offer, member, rfl⟩ := List.mem_map.mp named
    obtain ⟨entry, inside, handed⟩ := all.only offer member
    exact missing (handed.key ▸ List.mem_map_of_mem inside)
  constructor
  · intro text inside
    obtain ⟨offer, member, named, item⟩ := all.every _ inside
    exact Shape.filled_of_mem trimPrefix_set nodup member named
      (trimPrefix_set_string named item.string_eq)
  · intro missing
    exact Shape.foldl_set_of_notMem trimPrefix_set (absent missing) _
  · intro value inside
    obtain ⟨offer, member, named, item⟩ := all.every _ inside
    exact Shape.filled_of_mem lineComment_set nodup member named
      (lineComment_set_boolean named item.boolean_eq)
  · intro missing
    exact Shape.foldl_set_of_notMem lineComment_set (absent missing) _

/-- Among the offers for entries that do not all fit is a first one that fits no field. -/
theorem exists_first_offender (offends : ¬∀ entry ∈ contents, Fits entry) :
    ∃ first offer behind, offers = first ++ offer :: behind ∧
      (∀ other ∈ first, (shape.put? other).isSome) ∧ shape.put? offer = none := by
  cases found : offers.find? fun offer => (shape.put? offer).isNone with
  | none =>
    refine absurd (fun entry inside => ?_) offends
    obtain ⟨offer, member, handed⟩ := all.every entry inside
    have some := List.find?_eq_none.mp found offer member
    rw [Option.isNone_iff_eq_none, ← ne_eq, Option.ne_none_iff_isSome] at some
    exact (isSome_put?_iff handed).mp some
  | some offer =>
    obtain ⟨none, first, behind, split, fits⟩ := List.find?_eq_some_iff_append.mp found
    refine ⟨first, offer, behind, split, fun other member => ?_, Option.isNone_iff_eq_none.mp none⟩
    simpa using fits other member

/-- The first offer that fits no field is handed over for the least entry without a place. -/
theorem leastOffender_of_first {first behind : List (Offer Place)} {offer : Offer Place}
    {entry : String × Node} (nodup : (contents.map Prod.fst).Nodup)
    (ascends : offers.Pairwise fun left right => Text.utf8 left.key < Text.utf8 right.key)
    (split : offers = first ++ offer :: behind)
    (fits : ∀ other ∈ first, (shape.put? other).isSome) (offends : shape.put? offer = none)
    (inside : entry ∈ contents) (handed : HandsOver entry offer) :
    LeastOffender contents entry := by
  have offends : ¬Fits entry := by
    rw [← isSome_put?_iff handed, offends]
    exact nofun
  refine ⟨inside, offends, fun other otherInside otherOffends => ?_⟩
  obtain ⟨given, member, otherHanded⟩ := all.every other otherInside
  rw [split, List.mem_append, List.mem_cons] at member
  rcases member with before | rfl | later
  · exact absurd ((isSome_put?_iff otherHanded).mp (fits given before)) otherOffends
  · have same : other.1 = entry.1 := otherHanded.key.symm.trans handed.key
    exact .inl (List.inj_on_of_nodup_map nodup otherInside inside same)
  · rw [split] at ascends
    have ordered := (List.pairwise_append.mp ascends).2.1
    have less := (List.pairwise_cons.mp ordered).1 given later
    rw [handed.key, otherHanded.key] at less
    exact .inr less

end

section
variable {Place : Type} {decoder : Decoder Place Policy} {limits : Limits} (fills : decoder.Fills)
  (parses : decoder.Parses limits) {source : String} {contents : List (String × Node)}
  (document : Document limits source.toList contents)
include fills parses document

theorem read_of_fits (fits : ∀ entry ∈ contents, Fits entry) :
    ∃ policy, read decoder source = .ok policy ∧ Describes contents policy := by
  obtain ⟨offers, given, all⟩ := parses.reads document
  have nodup := parses.nodup given
  have filled : decoder.fill shape offers = .ok (shape.filled offers) := by
    refine fills.fill_of_fits nodup fun offer member => ?_
    obtain ⟨entry, inside, handed⟩ := all.only offer member
    exact (isSome_put?_iff handed).mpr (fits entry inside)
  exact ⟨_, by simp only [read, given, filled], describes_filled all nodup⟩

theorem read_of_offends (offends : ¬∀ entry ∈ contents, Fits entry) :
    ∃ entry fault message, LeastOffender contents entry ∧ read decoder source = .error fault ∧
      fault.message? = some message ∧ Reports decoder source entry message := by
  obtain ⟨offers, given, all⟩ := parses.reads document
  obtain ⟨first, offer, behind, split, fits, offends⟩ := exists_first_offender all offends
  have member : offer ∈ offers := by simp [split]
  obtain ⟨entry, inside, handed⟩ := all.only offer member
  have nodup := parses.nodup given
  rw [split] at nodup
  obtain ⟨⟨place, objection⟩, objects, stopped⟩ := fills.fill_of_offends rfl nodup fits offends
  rw [← split] at stopped
  obtain ⟨before, after, worded⟩ := fills.shows source place objection
  refine ⟨entry, .misshapen (decoder.wording source place objection), _, ?_, ?_, ?_,
    .mk given member handed (concerns_of_objects handed objects) worded⟩
  · exact leastOffender_of_first all document.nodup (parses.ascends given) split fits offends
      inside handed
  · simp only [read, given, stopped]
  · rw [Fault.message?, worded]

end

/-- Within any limits in which documents are parsed, a document describes a policy exactly if under
each of its keys, which are distinct, stands what the policy has under it. The policy has these
parts, and for a missing key that of the plain policy. Otherwise the message is about the key with
the least bytes under which something else stands: an unknown key is called unknown, and under a
known one the kind that stands there is named, unless it is a number that is refused because it is
too large. -/
theorem read_document {Place : Type} {decoder : Decoder Place Policy} {limits : Limits}
    (fills : decoder.Fills) (parses : decoder.Parses limits) {source : String}
    {contents : List (String × Node)} (document : Document limits source.toList contents) :
    (contents.map Prod.fst).Nodup ∧
      ((∃ policy, read decoder source = .ok policy) ↔ ∀ entry ∈ contents, Fits entry) ∧
      (∀ policy, read decoder source = .ok policy → Describes contents policy) ∧
      ∀ fault, read decoder source = .error fault → ∃ entry message,
        LeastOffender contents entry ∧ fault.message? = some message ∧
          Reports decoder source entry message := by
  refine ⟨document.nodup, ?_⟩
  by_cases fits : ∀ entry ∈ contents, Fits entry
  · obtain ⟨policy, accepted, describes⟩ := read_of_fits fills parses document fits
    rw [accepted]
    refine ⟨⟨fun _ => fits, fun _ => ⟨policy, rfl⟩⟩, ?_, nofun⟩
    rintro other ⟨⟩
    exact describes
  · obtain ⟨entry, fault, message, least, rejected, text, reports⟩ :=
      read_of_offends fills parses document fits
    rw [rejected]
    refine ⟨⟨nofun, fun all => absurd all fits⟩, nofun, ?_⟩
    rintro other ⟨⟩
    exact ⟨entry, message, least, text, reports⟩

/-- An unknown key behind a known one with a number under it, and a policy on two lines. -/
theorem read_document_unordered :
    (∃ fault message, ofToml "trim_prefix = 1\nline = true" = .error fault ∧
      fault.message? = some message ∧ Reports (decoder limits) "trim_prefix = 1\nline = true"
        ("line", .value (.boolean true)) message) ∧
      ofToml "line_comment = true\ntrim_prefix = 'T' # 'U'" = .ok ⟨"T", true⟩ := by
  have general {source : String} {contents : List (String × Node)} :=
    @read_document Extent (decoder limits) limits (fills_decoder limits) (parses_decoder limits)
      source contents
  constructor
  · have one : IsInteger ['1'] ⟨10, false, ['1']⟩ := .decimal .none ⟨.last rfl, .inr (by decide)⟩
    obtain ⟨_, trim, putsTrim⟩ :=
      @exists_stated limits "\nline = true".toList trimKey (by decide) (by decide) _ _ (.integer one)
    obtain ⟨_, line, putsLine⟩ :=
      @exists_stated limits [] "line" (by decide) (by decide) _ _ (.boolean true)
    have lines := Lines.more (.statement .none trim (.none (.line .lineFeed))) .lineFeed
      (.last (.statement .none line (.none .text)))
    have document : Document limits "trim_prefix = 1\nline = true".toList _ :=
      lines.document (.cons putsTrim (.cons putsLine .nil)) (by decide)
    obtain ⟨_, accepts, _, faults⟩ := general document
    have offends : ¬Fits ("line", .value (.boolean true)) := by
      rw [fits_iff]
      decide
    cases outcome : read (decoder limits) "trim_prefix = 1\nline = true" with
    | ok policy => exact absurd (accepts.mp ⟨policy, outcome⟩ _ (by simp [inDocument])) offends
    | error fault =>
      obtain ⟨entry, message, least, worded, reports⟩ := faults fault outcome
      have first : entry = ("line", .value (.boolean true)) := by
        rcases least.least _ (by simp [inDocument]) offends with same | less
        · exact same.symm
        · have below := Text.utf8_lt_iff.mp less
          rcases List.mem_cons.mp least.member with rfl | last
          · exact absurd below (by decide)
          · exact List.mem_singleton.mp last
      exact ⟨fault, message, outcome, worded, first ▸ reports⟩
  · obtain ⟨_, comment, putsComment⟩ := @exists_stated limits "\ntrim_prefix = 'T' # 'U'".toList
      commentKey (by decide) (by decide) _ _ (.boolean true)
    have text : Quoted "'T' # 'U'".toList "T" " # 'U'".toList :=
      .oneLine (.literal (.char (by decide) (by decide) .close))
    obtain ⟨_, trim, putsTrim⟩ :=
      @exists_stated limits _ trimKey (by decide) (by decide) _ _ (.string text)
    have remark : Tail " # 'U'".toList [] :=
      .blank rfl (@Tail.comment " 'U'".toList [] (by decide) .text)
    have lines := Lines.more (.statement .none comment (.none (.line .lineFeed))) .lineFeed
      (.last (.statement .none trim remark))
    have document : Document limits "line_comment = true\ntrim_prefix = 'T' # 'U'".toList _ :=
      lines.document (.cons putsComment (.cons putsTrim .nil)) (by decide)
    obtain ⟨_, accepts, describes, _⟩ := general document
    have fits : ∀ entry ∈ [(commentKey, Value.boolean true), (trimKey, Value.string "T")].map
        inDocument, Fits entry := by
      simp only [fits_iff]
      decide
    obtain ⟨policy, accepted⟩ := accepts.mpr fits
    have same : policy = ⟨"T", true⟩ := by
      refine (describes policy accepted).eq fits ?_
      constructor <;> simp [inDocument, commentKey_ne_trimKey, commentKey_ne_trimKey.symm]
    rw [ofToml, accepted, same]

/-- A number beyond all that 64 bits hold is not called by its kind. -/
theorem ofToml_tooLarge : (decoder limits : Decoder Extent Policy).Fills ∧
    (decoder limits : Decoder Extent Policy).Parses limits ∧
    Document limits "trim_prefix = 1e400".toList
      [(trimKey, .value (.floating (.decimal false 1 400)))] ∧
    ∃ report, ofToml "trim_prefix = 1e400" = .error (.misshapen report) ∧
      report = "TOML parse error at line 1, column 15\n  |\n1 | trim_prefix = 1e400\n" ++
        "  |               ^^^^^\nfloating-point number overflowed\n" ∧
      ∀ before behind, report ≠ before ++ "invalid type" ++ behind := by
  have number : IsFloating "1e400".toList (.decimal false 1 400) :=
    .decimal .none ⟨.last rfl, .inr (by decide)⟩ .none
      (.some (.inl rfl) .none (.next rfl (.next rfl (.last rfl)))) (.inr nofun)
  obtain ⟨statement, stated, puts⟩ := @exists_stated limits [] trimKey (by decide) (by decide) _ _
    (.floating number)
  refine ⟨fills_decoder limits, parses_decoder limits, ?_, _, ?_, rfl, ?_⟩
  · exact (Lines.last (.statement .none stated (.none .text))).document (.cons puts .nil)
      (List.nodup_singleton _)
  · decide +kernel
  · intro before behind same
    have inside := List.infix_append before.toList "invalid type".toList behind.toList
    rw [← String.toList_append, ← String.toList_append, ← same] at inside
    revert inside
    decide +kernel

end EnumNames.Policy
