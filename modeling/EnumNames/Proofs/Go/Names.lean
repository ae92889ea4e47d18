import EnumNames.Go.Section
import EnumNames.Proofs.Go.ExprReading
import EnumNames.Proofs.Go.Scope

/-! The names of a section. Those that it declares begin with an underscore and are longer than
the name of its type, so they hide nothing that the section uses. -/
namespace EnumNames.Go
variable {α : Type} {alphabet : Alphabet} {typeName name : String}

/-- The names that a section uses itself, and the blank one. -/
def reserved : List String :=
  ["_", "i", "str", "ok", "len", "string", "int64", "uint64", "uint8", "uint16", "uint32",
    "strconv"]

/-- A name that is made from the name of a type by plain letters behind it. -/
def IsMade (typeName name : String) : Prop :=
  ∃ ending : String, name = "_" ++ typeName ++ ending ∧
    ending.toList.all fun c => c.isAlphanum || c == '_'

theorem isMade_blobName (typeName : String) : IsMade typeName (blobName typeName) :=
  ⟨"_name", rfl, by decide⟩

theorem isMade_offsetsName (typeName : String) : IsMade typeName (offsetsName typeName) :=
  ⟨"_index", rfl, by decide⟩

theorem isMade_mapName (typeName : String) : IsMade typeName (mapName typeName) :=
  ⟨"_map", rfl, by decide⟩

theorem IsMade.numbered (made : IsMade typeName name) (place : Nat) :
    IsMade typeName (numbered name place) := by
  obtain ⟨ending, rfl, plain⟩ := made
  refine ⟨ending ++ "_" ++ toString place, by simp [Go.numbered, String.append_assoc], ?_⟩
  have digits : (toString place).toList.all fun c => c.isAlphanum || c == '_' := by
    rw [List.all_eq_true]
    intro c member
    simp [Char.isAlphanum, isDigit_of_mem_toString member]
  simp only [String.toList_append, List.all_append, plain, digits, Bool.and_true, Bool.true_and]
  decide

theorem IsMade.head (made : IsMade typeName name) : name.toList.head? = some '_' := by
  obtain ⟨ending, rfl, _⟩ := made
  simp

theorem IsMade.ne_typeName (made : IsMade typeName name) : name ≠ typeName := by
  obtain ⟨ending, rfl, _⟩ := made
  intro same
  have lengths := congrArg String.length same
  simp only [String.length_append] at lengths
  have one : "_".length = 1 := by decide
  omega

theorem IsMade.ne_receiver (made : IsMade typeName name) : name ≠ "i" := by
  rintro rfl
  exact absurd made.head (by decide)

theorem IsMade.isName (made : IsMade typeName name) (named : alphabet.IsName typeName) :
    alphabet.IsName name := by
  have head := made.head
  obtain ⟨ending, rfl, plain⟩ := made
  refine ⟨⟨⟨'_', head, rfl⟩, ?_⟩, List.lookup_eq_none_iff.mpr ?_⟩
  · have letters : ending.toList.all alphabet.continuesName := by
      rw [List.all_eq_true] at plain ⊢
      intro c member
      have known := plain c member
      simp only [Char.isAlphanum, Bool.or_eq_true] at known
      simp only [Alphabet.continuesName, Alphabet.startsName, Bool.or_eq_true]
      tauto
    simp only [String.toList_append, List.all_append, named.1.2, letters, Bool.and_true]
    rfl
  · have table : ∀ entry ∈ keywords, entry.1.toList.head? ≠ some '_' := by decide
    intro entry member
    rw [bne_iff_ne]
    intro same
    exact table entry member (same ▸ head)

theorem blobName_append_ne_offsetsName_append (typeName left right : String) :
    blobName typeName ++ left ≠ offsetsName typeName ++ right := by
  intro same
  simp only [blobName, offsetsName, String.append_assoc, String.append_right_inj] at same
  have second := congrArg (·.toList[1]?) same
  simp at second

theorem blobName_ne_offsetsName (typeName : String) : blobName typeName ≠ offsetsName typeName := by
  simpa using blobName_append_ne_offsetsName_append typeName "" ""

theorem blobName_ne_mapName (typeName : String) : blobName typeName ≠ mapName typeName := by
  intro same
  simp only [blobName, mapName, String.append_right_inj] at same
  exact absurd same (by decide)

theorem numbered_blobName_ne (typeName : String) (left right : Nat) :
    numbered (blobName typeName) left ≠ numbered (offsetsName typeName) right := by
  simp only [numbered, String.append_assoc]
  exact blobName_append_ne_offsetsName_append typeName _ _

theorem numbered_injective (name : String) : Function.Injective (numbered name) := by
  intro left right same
  exact toString_nat_injective ((String.append_right_inj _).mp same)

/-- What a scope tells about a type and about what every section uses. -/
def Scope.Knows (scope : Scope α) (type : IntType) : Prop :=
  scope type.name = some (.type type) ∧ ∀ entry ∈ ambient, scope entry.1 = some entry.2

theorem fst_mem_reserved {entry : String × Entity α} (member : entry ∈ ambient) :
    entry.1 ∈ reserved := by
  have names : (ambient (α := α)).map Prod.fst ⊆ reserved := by
    simp [ambient, reserved]
  exact names (List.mem_map_of_mem member)

theorem head_of_mem_ambient {entry : String × Entity α} (member : entry ∈ ambient) :
    entry.1.toList.head? ≠ some '_' := by
  simp only [ambient, List.mem_cons, List.not_mem_nil, or_false] at member
  rcases member with rfl | rfl | rfl | rfl | rfl | rfl | rfl | rfl <;> simp

theorem knows_fileScope {type : IntType} (free : type.name ∉ reserved) :
    (fileScope type : Scope α).Knows type := by
  refine ⟨by simp [fileScope], ?_⟩
  intro entry member
  have other : (entry.1 == type.name) = false :=
    beq_eq_false_iff_ne.mpr fun same => free (same ▸ fst_mem_reserved member)
  rw [fileScope, List.lookup_cons, other]
  simp only [ambient, List.mem_cons, List.not_mem_nil, or_false] at member
  rcases member with rfl | rfl | rfl | rfl | rfl | rfl | rfl | rfl <;> rfl

/-- The names that a section declares mean nothing in front of it. -/
theorem fileScope_isMade {type : IntType} (made : IsMade type.name name) :
    (fileScope type : Scope α) name = none := by
  rw [fileScope, List.lookup_eq_none_iff]
  intro entry member
  rw [bne_iff_ne]
  intro same
  rcases List.mem_cons.mp member with rfl | used
  · exact made.ne_typeName same
  · exact head_of_mem_ambient used (same ▸ made.head)

namespace Scope.Knows
variable {scope : Scope α} {type : IntType}

/-- A new name hides nothing that is used. -/
theorem declare (knows : scope.Knows type) {entity : Entity α} (other : name ≠ type.name)
    (free : ∀ entry ∈ ambient (α := α), entry.1 ≠ name) :
    (scope.declare name entity).Knows type := by
  constructor
  · rw [Scope.declare_of_ne (Ne.symm other)]
    exact knows.1
  · intro entry member
    rw [Scope.declare_of_ne (free entry member)]
    exact knows.2 entry member

theorem declare_isMade (knows : scope.Knows type) {entity : Entity α}
    (made : IsMade type.name name) : (scope.declare name entity).Knows type := by
  refine knows.declare made.ne_typeName ?_
  intro entry member same
  exact head_of_mem_ambient member (same ▸ made.head)

theorem declareAll (knows : scope.Knows type) {definitions : List (String × Entity α)}
    (made : ∀ definition ∈ definitions, IsMade type.name definition.1) :
    (scope.declareAll definitions).Knows type := by
  induction definitions generalizing scope with
  | nil => exact knows
  | cons definition definitions ih =>
    obtain ⟨own, others⟩ := List.forall_mem_cons.mp made
    exact ih (knows.declare_isMade own) others

theorem declare_receiver (knows : scope.Knows type) {entity : Entity α}
    (free : type.name ∉ reserved) : (scope.declare "i" entity).Knows type := by
  refine knows.declare (fun same => free (same ▸ by decide)) ?_
  simp [ambient]

theorem len (knows : scope.Knows type) : scope "len" = some .len :=
  knows.2 ("len", .len) (by simp [ambient])

theorem string (knows : scope.Knows type) : scope "string" = some .string :=
  knows.2 ("string", .string) (by simp [ambient])

theorem strconv (knows : scope.Knows type) : scope "strconv" = some .package :=
  knows.2 ("strconv", .package) (by simp [ambient])

theorem int64 (knows : scope.Knows type) : scope "int64" = some (.type .int64) :=
  knows.2 ("int64", .type .int64) (by simp [ambient])

theorem uint64 (knows : scope.Knows type) : scope "uint64" = some (.type .uint64) :=
  knows.2 ("uint64", .type .uint64) (by simp [ambient])

theorem element (knows : scope.Knows type) {bits : Nat} (known : bits ∈ [8, 16, 32]) :
    scope ("uint" ++ toString bits) = some (.type (.element bits)) := by
  simp only [List.mem_cons, List.not_mem_nil, or_false] at known
  rcases known with rfl | rfl | rfl
  · exact knows.2 ("uint8", .type (.element 8)) (by simp [ambient])
  · exact knows.2 ("uint16", .type (.element 16)) (by simp [ambient])
  · exact knows.2 ("uint32", .type (.element 32)) (by simp [ambient])

end Scope.Knows

section Tables
variable {type : IntType} {text places : α}

/-- The scope behind the constant with all names. -/
def blobScope (type : IntType) (text : α) : Scope α :=
  (fileScope type).declare (blobName type.name) (.data text)

/-- The scope behind the variable that tells where the names are. -/
def tableScope (type : IntType) (text : α) (name : String) (places : α) : Scope α :=
  (blobScope type text).declare name (.data places)

theorem knows_blobScope (free : type.name ∉ reserved) : (blobScope type text).Knows type :=
  (knows_fileScope free).declare_isMade (isMade_blobName type.name)

theorem blobScope_isMade (made : IsMade type.name name) (other : blobName type.name ≠ name) :
    blobScope type text name = none := by
  rw [blobScope, Scope.declare_of_ne other.symm]
  exact fileScope_isMade made

theorem knows_tableScope (free : type.name ∉ reserved) (made : IsMade type.name name) :
    (tableScope type text name places).Knows type :=
  (knows_blobScope free).declare_isMade made

theorem tableScope_self : tableScope type text name places name = some (.data places) :=
  Scope.declare_self ..

theorem tableScope_blobName (other : blobName type.name ≠ name) :
    tableScope type text name places (blobName type.name) = some (.data text) :=
  (Scope.declare_of_ne other).trans (Scope.declare_self ..)

end Tables
end EnumNames.Go
