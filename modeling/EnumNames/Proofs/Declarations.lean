import EnumNames.Policy.Descriptor
import EnumNames.Proofs.Strategy

/-! What comes of declared constants. Three causes keep a type from getting a table, and the first
of them in a fixed order is reported, wherever in the list it is found. Constants with the blank
name play no part in any of this. -/
namespace EnumNames
open Record

/-- How the integer of a constant is read, if it is one. -/
def ConstantValue.signedness? : ConstantValue → Option Signedness
  | .signed _ => some .signed
  | .unsigned _ => some .unsigned
  | .nonInteger _ => none

namespace Declaration

/-- The constants with a name, in order. -/
def live (declarations : List Declaration) : List Declaration :=
  declarations.filter (!·.isBlank)

/-- The objection to a constant that is no integer. It names the constant as declared. -/
def nonInteger? (declaration : Declaration) : Option Error :=
  match declaration.value with
  | .nonInteger kind => some (.nonInteger declaration.name kind)
  | _ => none

/-- The objection to constants that are all integers: that there are none, or else that one is
read in another way than the first. It names the constant as it would be printed. -/
def disagreement? (policy : Policy) (typeName : String) : List Declaration → Option Error
  | [] => some (.emptyInput typeName)
  | first :: others =>
    (others.find? fun other => other.value.signedness? != first.value.signedness?).map fun odd =>
      .mixedSignedness typeName (policy.printedName odd)

/-- The objection that counts. A constant that is no integer comes before all else. -/
def objection? (policy : Policy) (typeName : String) (constants : List Declaration) :
    Option Error :=
  (constants.findSome? nonInteger?).or (disagreement? policy typeName constants)

end Declaration

namespace Policy
open Declaration
variable {policy : Policy}

/-- What the record of a constant keeps of it. -/
structure Records (policy : Policy) (declaration : Declaration) (record : Record) : Prop where
  name : record.name = policy.printedName declaration
  signedness : some record.signedness = declaration.value.signedness?

/-- A constant becomes a record unless it is no integer. -/
theorem record_cases (policy : Policy) (declaration : Declaration) :
    (∃ error, nonInteger? declaration = some error ∧ policy.record declaration = .error error) ∨
    (∃ record, nonInteger? declaration = none ∧ policy.record declaration = .ok record ∧
      policy.Records declaration record) := by
  unfold nonInteger? Policy.record
  cases value : declaration.value with
  | signed word => exact .inr ⟨_, rfl, rfl, rfl, by rw [value]; rfl⟩
  | unsigned word => exact .inr ⟨_, rfl, rfl, rfl, by rw [value]; rfl⟩
  | nonInteger kind => exact .inl ⟨_, rfl, rfl⟩

/-- The first constant that is no integer stops the collection, and nothing else does. -/
theorem mapM_record (policy : Policy) (constants : List Declaration) :
    (∃ error, constants.findSome? nonInteger? = some error ∧
      constants.mapM policy.record = .error error) ∨
    (∃ records, constants.findSome? nonInteger? = none ∧
      constants.mapM policy.record = .ok records ∧
      List.Forall₂ policy.Records constants records) := by
  induction constants with
  | nil => exact .inr ⟨[], rfl, rfl, .nil⟩
  | cons declaration constants ih =>
    rw [List.findSome?_cons, List.mapM_cons]
    rcases record_cases policy declaration with
      ⟨error, objection, refused⟩ | ⟨record, none, made, kept⟩
    · exact .inl ⟨error, by rw [objection], by rw [refused]; rfl⟩
    · rw [none, made]
      rcases ih with ⟨error, later, refused⟩ | ⟨records, noneLater, collected, related⟩
      · exact .inl ⟨error, later, by rw [refused]; rfl⟩
      · exact .inr ⟨record :: records, noneLater, by rw [collected]; rfl,
          .cons kept related⟩

theorem map_name_eq {constants : List Declaration} {records : List Record}
    (related : List.Forall₂ policy.Records constants records) :
    records.map Record.name = constants.map policy.printedName := by
  induction related with
  | nil => rfl
  | cons first _ ih => rw [List.map_cons, List.map_cons, first.name, ih]

/-- The first record that is read in another way belongs to the first such constant. -/
theorem find?_map_name {constants : List Declaration} {records : List Record}
    (related : List.Forall₂ policy.Records constants records) (signedness : Signedness) :
    (records.find? (·.signedness != signedness)).map Record.name =
      (constants.find? fun constant => constant.value.signedness? != some signedness).map
        policy.printedName := by
  induction related with
  | nil => rfl
  | @cons constant record constants records first _ ih =>
    have same : (record.signedness != signedness) =
        (constant.value.signedness? != some signedness) := by
      rw [← first.signedness]
      rfl
    rw [List.find?_cons, List.find?_cons, same]
    cases constant.value.signedness? != some signedness with
    | true => simp [first.name]
    | false => exact ih

/-- The records disagree exactly where the constants do. -/
theorem commonSignedness_records (typeName : String) {constants : List Declaration}
    {records : List Record} (related : List.Forall₂ policy.Records constants records) :
    match disagreement? policy typeName constants with
    | some error => commonSignedness typeName records = .error error
    | none => ∃ signedness, commonSignedness typeName records = .ok signedness := by
  cases related with
  | nil => rfl
  | @cons first record others rest own related =>
    have odd := find?_map_name related record.signedness
    rw [own.signedness] at odd
    unfold disagreement? commonSignedness
    dsimp only
    cases found : others.find? fun other =>
        other.value.signedness? != first.value.signedness? with
    | none =>
      rw [found, Option.map_none, Option.map_eq_none_iff] at odd
      exact ⟨record.signedness, by rw [odd]⟩
    | some constant =>
      rw [found, Option.map_some, Option.map_eq_some_iff] at odd
      obtain ⟨other, foundOther, name⟩ := odd
      rw [foundOther, Option.map_some, ← name]

end Policy

namespace Descriptor
open Declaration

theorem compile_eq_error {typeName : String} {records : List Record} {error : Error}
    (refused : commonSignedness typeName records = .error error) :
    (compile typeName records).outcome = .error error := by
  simp only [compile, bind, Traced.bind, Traced.ofExcept, refused]

/-- Records that agree on how they are read compile if their names are not too long. -/
theorem compile_succeeds {typeName : String} {records : List Record} {signedness : Signedness}
    (common : commonSignedness typeName records = .ok signedness)
    (fits : (joined records).utf8ByteSize < 0x100000000) :
    ∃ descriptor, (compile typeName records).outcome = .ok descriptor := by
  obtain ⟨nonempty, uniform⟩ := commonSignedness_eq_ok_iff.mp common
  have kept : (joined ((Run.split (distinct records)).flatMap Run.records)).utf8ByteSize <
      0x100000000 := by
    rw [Run.flatMap_records_split]
    refine (utf8ByteSize_joined_le (distinct_sublist records)).trans_lt ?_
    rwa [ascending, utf8ByteSize_joined_perm (List.mergeSort_perm _ _)]
  obtain ⟨tables, built⟩ :=
    Tables.build_succeeds (Strategy.select (Run.split (distinct records)).length) kept
  exact ⟨⟨typeName, signedness, _, _, tables⟩,
    compile_eq_ok_iff.mpr ⟨rfl, nonempty, uniform, rfl, rfl, built⟩⟩

/-- Declared constants get a table exactly if there is no objection to those with a name, and
otherwise the objection that counts is reported. Blank constants change nothing, whatever their
values and wherever they stand. -/
theorem outcome_ofDeclarations (policy : Policy) (typeName : String)
    (declarations : List Declaration)
    (bytes : (String.join ((live declarations).map policy.printedName)).utf8ByteSize <
      0x100000000) :
    (match objection? policy typeName (live declarations) with
      | some error => (ofDeclarations policy typeName declarations).outcome = .error error
      | none => ∃ descriptor, (ofDeclarations policy typeName declarations).outcome =
        .ok descriptor) ∧
    ∀ others, live others = live declarations →
      ofDeclarations policy typeName others = ofDeclarations policy typeName declarations := by
  constructor
  · have outcome (step : Except Error (List Record)) : (do
        let records ← Traced.ofExcept step
        compile typeName records).outcome = step.bind fun records =>
          (compile typeName records).outcome := by
      cases step <;> rfl
    rw [ofDeclarations, outcome, Policy.collect, ← live]
    rcases Policy.mapM_record policy (live declarations) with
      ⟨error, found, refused⟩ | ⟨records, none, collected, related⟩
    · rw [objection?, found, refused]
      rfl
    · have agreement := Policy.commonSignedness_records typeName related
      rw [objection?, none, collected, Option.none_or]
      cases objection : disagreement? policy typeName (live declarations) with
      | some error =>
        rw [objection] at agreement
        exact compile_eq_error agreement
      | none =>
        rw [objection] at agreement
        obtain ⟨signedness, common⟩ := agreement
        refine compile_succeeds common ?_
        rwa [joined, Policy.map_name_eq related]
  · intro others same
    simp only [live] at same
    simp only [ofDeclarations, Policy.collect, same]

/-- A clash of signedness counts only if every constant is an integer, and is reported under the
printed name. -/
theorem outcome_ofDeclarations_precedence :
    (ofDeclarations ⟨"Pill", false⟩ "Pill" [⟨"_", .nonInteger "string", none⟩,
      ⟨"PillOne", .signed 1, none⟩, ⟨"PillTwo", .unsigned 2, none⟩,
      ⟨"PillHalf", .nonInteger "float", none⟩]).outcome = .error (.nonInteger "PillHalf" "float") ∧
    (ofDeclarations ⟨"Pill", false⟩ "Pill" [⟨"_", .nonInteger "string", none⟩,
      ⟨"PillOne", .signed 1, none⟩, ⟨"PillTwo", .unsigned 2, none⟩]).outcome =
        .error (.mixedSignedness "Pill" "Two") ∧
    ofDeclarations ⟨"Pill", false⟩ "Pill" [⟨"PillOne", .signed 1, none⟩,
        ⟨"_", .unsigned 7, some "gap"⟩] =
      ofDeclarations ⟨"Pill", false⟩ "Pill" [⟨"PillOne", .signed 1, none⟩] :=
  ⟨(outcome_ofDeclarations ⟨"Pill", false⟩ "Pill" [⟨"_", .nonInteger "string", none⟩,
      ⟨"PillOne", .signed 1, none⟩, ⟨"PillTwo", .unsigned 2, none⟩,
      ⟨"PillHalf", .nonInteger "float", none⟩] (by decide)).1,
    (outcome_ofDeclarations ⟨"Pill", false⟩ "Pill" [⟨"_", .nonInteger "string", none⟩,
      ⟨"PillOne", .signed 1, none⟩, ⟨"PillTwo", .unsigned 2, none⟩] (by decide)).1,
    (outcome_ofDeclarations ⟨"Pill", false⟩ "Pill" [⟨"PillOne", .signed 1, none⟩]
      (by decide)).2 _ (by decide)⟩

end Descriptor
end EnumNames
