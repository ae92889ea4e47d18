import EnumNames.Proofs.Go.Operands
import EnumNames.Proofs.Go.Section

/-! A section is accepted where its type holds the values of all members and the sizes of all
runs. -/
namespace EnumNames.Go

/-- Accepted statements may stand before a body. -/
theorem isBody_append {scope : Scope Operand} {first rest : List Stmt}
    (accepted : first.all (·.accepted scope)) (nonempty : rest ≠ []) :
    isBody scope (first ++ rest) = isBody scope rest := by
  rw [isBody, isBody, List.all_append, accepted, Bool.true_and,
    List.getLast?_append_of_ne_nil _ nonempty]

section OneRun
variable {type : IntType} {descriptor : Descriptor} {run : Run}

/-- The statements of a method for one run. -/
def oneRunBody (descriptor : Descriptor) (run : Run) : List Stmt :=
  (shift descriptor run).map .simple ++
    [.ifReturn (outside descriptor) (fallback descriptor (unshifted descriptor run)),
      .simple (.ret (nameAtReceiver (blobName descriptor.typeName)
        (offsetsName descriptor.typeName)))]

/-- The scope of a method for one run, as the compiler knows it. -/
def oneRunScope (type : IntType) (run : Run) (table : NameTable) : Scope Operand :=
  tableScope type (.text table.blob.toByteArray) (offsetsName type.name)
    (.computed (.array (.element table.width.bits) (run.size + 1)))

/-- A section for one run is accepted if its method is. -/
theorem accepts_oneRun_eq (covers : type.Covers descriptor) (free : type.name ∉ reserved)
    {table : NameTable} (built : NameTable.build run.records = .ok table) :
    accepts type (oneRun descriptor run table) =
      isBody ((oneRunScope type run table).declare "i" (.data (.computed (.int type))))
        (oneRunBody descriptor run) := by
  have length : table.offsets.toList.length = run.size + 1 := NameTable.length_offsets built
  have different := blobName_ne_offsetsName type.name
  have constant : declareItem? (fileScope type) (.const (blobName type.name) (.string table.blob)) =
      some (blobScope type (.text table.blob.toByteArray)) :=
    declareItem?_const (fileScope_isMade (isMade_blobName _)) table.blob
  have array : declareItem? (blobScope type (.text table.blob.toByteArray))
      (.var (offsetsName type.name) (offsetsArray table)) = some (oneRunScope type run table) := by
    rw [declareItem?, declareVar?_offsetsArray (knows_blobScope free),
      declare?_eq_some (blobScope_isMade (isMade_offsetsName _) different), length]
    rfl
  have knows : (oneRunScope type run table).Knows type :=
    knows_tableScope free (isMade_offsetsName type.name)
  have method := declareItem?_stringMethod covers.declared knows (oneRunBody descriptor run)
  rw [oneRun_eq, ← oneRunBody, ← covers.name]
  simp only [accepts, List.foldlM_cons, List.foldlM_nil, constant, array, method,
    Option.bind_eq_bind, Option.bind_some]
  cases isBody ((oneRunScope type run table).declare "i" (.data (.computed (.int type))))
    (oneRunBody descriptor run) <;> rfl

/-- The names that a method for one run reads mean what the section declares. -/
theorem oneRunScope_blobName (type : IntType) (run : Run) (table : NameTable) :
    (oneRunScope type run table).declare "i" (.data (.computed (.int type)))
      (blobName type.name) = some (.data (.text table.blob.toByteArray)) :=
  (Scope.declare_of_ne (isMade_blobName _).ne_receiver).trans
    (tableScope_blobName (blobName_ne_offsetsName _))

theorem oneRunScope_offsetsName (type : IntType) (run : Run) (table : NameTable) :
    (oneRunScope type run table).declare "i" (.data (.computed (.int type)))
      (offsetsName type.name) = some (.data (.computed
        (.array (.element table.width.bits) (run.size + 1)))) :=
  (Scope.declare_of_ne (isMade_offsetsName _).ne_receiver).trans tableScope_self

variable (covers : type.Covers descriptor) (member : run ∈ descriptor.runs)
  (counted : IntType.int.holds run.size)
include covers member counted

/-- The method is a body exactly if its type holds the number of members. -/
theorem isBody_oneRun {scope : Scope Operand} (knows : scope.Knows type)
    (typed : scope "i" = some (.data (.computed (.int type)))) {bytes : ByteArray}
    {element : IntType} (named : scope (blobName type.name) = some (.data (.text bytes)))
    (listed : scope (offsetsName type.name) =
      some (.data (.computed (.array element (run.size + 1))))) :
    isBody scope (oneRunBody descriptor run) = type.holds run.size := by
  have beyond : operand? scope (.wide .atLeast receiver (memberCount type.name
      (offsetsName type.name))) = if type.holds run.size then some (.computed .bool) else none := by
    cases inside : type.holds run.size <;>
      simp [operand?, operand?_receiver typed, operand?_memberCount knows listed counted,
        Operand.number?, Operand.join?, Operand.fits, inside, Operand.combine?,
        Operator.arithmetic?, Operator.comparison?]
  have negative : operand? scope (.wide .less receiver (.int 0)) = some (.computed .bool) :=
    operand?_receiver_int typed type.holds_zero
  have restored : operand? scope (unshifted descriptor run) = some (.computed (.int type)) := by
    unfold unshifted
    split
    · exact operand?_receiver typed
    · exact operand?_receiver_int typed (covers.holds_min member)
  have tested : isCondition scope (outside descriptor) = type.holds run.size := by
    rw [isCondition, outside, ← covers.name]
    cases inside : type.holds run.size with
    | true =>
      rw [inside, if_pos rfl] at beyond
      cases descriptor.signedness with
      | signed => simp [operand?_connective (.inr rfl) negative beyond]
      | unsigned => simp [beyond]
    | false =>
      rw [inside, if_neg (by simp)] at beyond
      cases descriptor.signedness with
      | signed =>
        dsimp only
        rw [operand?, negative, beyond]
        rfl
      | unsigned => simp [beyond]
  have shifted : ((shift descriptor run).map Stmt.simple).all (·.accepted scope) := by
    rw [List.all_map, List.all_eq_true]
    exact accepted_shift typed (covers.holds_min member)
  rw [oneRunBody, isBody_append shifted (List.cons_ne_nil _ _), ← covers.name]
  cases inside : type.holds run.size with
  | false => simp [isBody, Stmt.accepted, tested, inside]
  | true =>
    have name := returnsString_nameAtReceiver typed (IntType.holds_one inside) named listed
    simp [isBody, Stmt.accepted, tested, inside, returnsString_fallback knows restored,
      Simple.accepted, name, Stmt.terminates, Simple.terminates]

theorem accepts_oneRun (free : type.name ∉ reserved) {table : NameTable}
    (built : NameTable.build run.records = .ok table) :
    accepts type (oneRun descriptor run table) = type.holds run.size := by
  have knows : (oneRunScope type run table).Knows type :=
    knows_tableScope free (isMade_offsetsName type.name)
  rw [accepts_oneRun_eq covers free built]
  exact isBody_oneRun covers member counted (knows.declare_receiver free) (Scope.declare_self ..)
    (oneRunScope_blobName type run table) (oneRunScope_offsetsName type run table)

end OneRun

section MultiRun
variable {type : IntType} {descriptor : Descriptor} {tables : List NameTable}
  (carries : type.Carries descriptor)

/-- The scope of a method, as the compiler knows it. -/
def typedScope (type : IntType) (runs : List Run) (tables : List NameTable) : Scope Operand :=
  runScope type runs tables (fun blob => .text blob.toByteArray) fun table =>
    .computed (.array (.element table.width.bits) table.offsets.toList.length)

theorem declare_blobs (free : type.name ∉ reserved) (tables : List NameTable) :
    (blobs type.name tables 0).foldlM declareConst? (fileScope type) =
      some ((fileScope type).declareAll
        (blobEntities type.name tables fun blob => .text blob.toByteArray)) := by
  rw [blobs_eq]
  refine foldlM_declare? ?_ ?_ (nodup_numbered _ (List.Sublist.refl _)) (knows_fileScope free) ?_
  · intro scope knows part member
    simp [declareConst?, blobDefinition, operand?]
  · intro part member
    exact (isMade_blobName _).numbered _
  · intro part member
    exact fileScope_isMade ((isMade_blobName _).numbered _)

theorem declare_offsets (free : type.name ∉ reserved) (runs : List Run) (tables : List NameTable) :
    (offsets type.name runs tables 0).foldlM declareVar? ((fileScope type).declareAll
      (blobEntities type.name tables fun blob => .text blob.toByteArray)) =
        some (typedScope type runs tables) := by
  rw [offsets_eq]
  refine foldlM_declare? ?_ ?_ (nodup_numbered _ List.filter_sublist)
    ((knows_fileScope free).declareAll (isMade_blobEntities _ _ _)) ?_
  · intro scope knows part member
    exact declareVar?_offsetsArray knows part.1.2
  · intro part member
    exact (isMade_offsetsName _).numbered _
  · intro part member
    exact blobEntities_numbered _ _

include carries

theorem accepted_arm {scope : Scope Operand} {run : Run} (member : run ∈ descriptor.runs)
    (typed : scope "i" = some (.data (.computed (.int type)))) {place : Nat} {bytes : ByteArray}
    {element : IntType} {length : Nat}
    (named : scope (numbered (blobName type.name) place) = some (.data (.text bytes)))
    (listed : run.others.isEmpty = false → scope (numbered (offsetsName type.name) place) =
      some (.data (.computed (.array element length)))) :
    isCondition scope (arm descriptor run place).condition ∧
      (∀ statement ∈ (arm descriptor run place).body, statement.accepted scope) ∧
      (arm descriptor run place).body.getLast?.any Simple.terminates := by
  have least := carries.holds_min member
  have most := carries.holds_max member
  rw [carries.name] at named listed
  unfold arm
  cases single : run.others.isEmpty with
  | true =>
    rw [if_pos rfl]
    refine ⟨?_, ?_, rfl⟩
    · rw [isCondition, operand?_receiver_int typed least]
      rfl
    · simp [Simple.accepted, returnsString, operand?, named, Operand.isString]
  | false =>
    rw [if_neg (by simp)]
    have atMost : operand? scope (.wide .atMost receiver
        (.int (descriptor.signedness.read run.max))) = some (.computed .bool) :=
      operand?_receiver_int typed most
    have atLeast : operand? scope (.wide .atMost (.int (descriptor.signedness.read run.min))
        receiver) = some (.computed .bool) := operand?_int_receiver typed least
    have name := returnsString_nameAtReceiver typed (IntType.holds_one (carries.sizes run member)) named
      (listed single)
    refine ⟨?_, ?_, by simp [Simple.terminates]⟩
    · dsimp only
      split
      · simp [isCondition, atMost]
      · simp [isCondition, operand?_connective (.inl rfl) atLeast atMost]
    · intro statement among
      rcases List.mem_append.mp among with shifted | last
      · exact accepted_shift typed least statement shifted
      · rw [List.mem_singleton.mp last]
        exact name

theorem isBody_multiRun (free : type.name ∉ reserved)
    (lengths : descriptor.runs.length = tables.length) :
    isBody ((typedScope type descriptor.runs tables).declare "i" (.data (.computed (.int type))))
      [.switch (arms descriptor) (fallback descriptor receiver)] := by
  obtain ⟨scope, scopeEq⟩ : ∃ scope, scope = (typedScope type descriptor.runs tables).declare "i"
    (.data (.computed (.int type))) := ⟨_, rfl⟩
  have knows : scope.Knows type := scopeEq ▸ (knows_runScope _ _ free).declare_receiver free
  have typed : scope "i" = some (.data (.computed (.int type))) := scopeEq ▸ Scope.declare_self ..
  have accepted {run : Run} {place : Nat} (among : (run, place) ∈ descriptor.runs.zipIdx) :
      isCondition scope (arm descriptor run place).condition ∧
      (∀ statement ∈ (arm descriptor run place).body, statement.accepted scope) ∧
      (arm descriptor run place).body.getLast?.any Simple.terminates := by
    have found : descriptor.runs[place]? = some run := List.mem_zipIdx_iff_getElem?.mp among
    obtain ⟨bound, _⟩ := List.getElem?_eq_some_iff.mp found
    have hasTable := List.getElem?_eq_getElem (lengths ▸ bound)
    have named : scope (numbered (blobName type.name) place) =
        some (.data (.text tables[place].blob.toByteArray)) := by
      rw [scopeEq, Scope.declare_of_ne ((isMade_blobName _).numbered place).ne_receiver]
      exact runScope_blob _ _ hasTable
    have listed (several : run.others.isEmpty = false) :
        scope (numbered (offsetsName type.name) place) = some (.data (.computed (.array
          (.element tables[place].width.bits) tables[place].offsets.toList.length))) := by
      rw [scopeEq, Scope.declare_of_ne ((isMade_offsetsName _).numbered place).ne_receiver]
      exact runScope_offsets _ _ found hasTable several
    exact accepted_arm carries (List.mem_of_getElem? found) typed named listed
  have otherwise : returnsString scope (fallback descriptor receiver) :=
    returnsString_fallback knows (operand?_receiver typed)
  rw [← scopeEq]
  simp only [isBody, List.all_cons, List.all_nil, Stmt.accepted, otherwise, Bool.and_true,
    List.getLast?_singleton, Option.any_some, Stmt.terminates, arms, List.all_map,
    Bool.and_eq_true, List.all_eq_true]
  constructor
  · intro part among
    obtain ⟨condition, body, _⟩ := accepted among
    exact Bool.and_eq_true_iff.mpr ⟨condition, List.all_eq_true.mpr body⟩
  · intro part among
    exact (accepted among).2.2

theorem accepts_multiRun (free : type.name ∉ reserved)
    (lengths : descriptor.runs.length = tables.length) :
    accepts type (multiRun descriptor tables) := by
  have constants : declareItem? (fileScope type) (.consts (blobs type.name tables 0)) = _ :=
    declare_blobs free tables
  have arrays := declare_offsets free descriptor.runs tables
  have knows : (typedScope type descriptor.runs tables).Knows type := knows_runScope _ _ free
  have method := declareItem?_stringMethod carries.declared knows
    [.switch (arms descriptor) (fallback descriptor receiver)]
  rw [if_pos (isBody_multiRun carries free lengths)] at method
  rw [multiRun_eq, ← carries.name, accepts, Bool.and_eq_true, decide_eq_true_eq]
  cases none : (offsets type.name descriptor.runs tables 0).isEmpty with
  | true =>
    rw [List.isEmpty_iff.mp none, List.foldlM_nil] at arrays
    refine ⟨List.nodup_singleton type.name, ?_⟩
    simp only [if_true, List.append_nil, List.cons_append, List.nil_append, List.foldlM_cons,
      List.foldlM_nil, constants, Option.some.inj arrays, method, Option.bind_eq_bind,
      Option.bind_some]
    rfl
  | false =>
    have definitions : declareItem? _ (.vars (offsets type.name descriptor.runs tables 0)) = _ :=
      arrays
    refine ⟨List.nodup_singleton type.name, ?_⟩
    simp only [if_false, List.cons_append, List.nil_append, List.foldlM_cons, List.foldlM_nil,
      constants, definitions, method, Option.bind_eq_bind, Option.bind_some, Bool.false_eq_true]
    rfl

end MultiRun

section SparseMap
variable {type : IntType} {descriptor : Descriptor} {table : SpanTable}
  (covers : type.Covers descriptor)
  (ascending : Record.Ascending descriptor.signedness (descriptor.runs.flatMap Run.records))
include covers ascending

/-- The keys of the map ascend, and every value is a part of the names. -/
theorem areEntries_entries {scope : Scope Operand} (built : SpanTable.build descriptor.runs = .ok table)
    (named : scope (blobName descriptor.typeName) = some (.data (.text table.blob.toByteArray))) :
    areEntries scope type (entries descriptor (descriptor.runs.flatMap Run.records) table) := by
  rw [areEntries, Bool.and_eq_true, decide_eq_true_eq, List.all_eq_true]
  constructor
  · rw [List.Nodup, List.pairwise_map, entries, List.pairwise_filterMap]
    refine ascending.imp ?_
    intro left right less one first other second
    obtain ⟨_, _, rfl⟩ := Option.map_eq_some_iff.mp first
    obtain ⟨_, _, rfl⟩ := Option.map_eq_some_iff.mp second
    exact Int.ne_of_lt less
  · intro entry member
    obtain ⟨record, among, span, found, rfl⟩ := mem_entries member
    obtain ⟨other, same, name⟩ := SpanTable.span?_of_mem built ascending.values_nodup among
    obtain rfl : other = span := Option.some.inj (same.symm.trans found)
    obtain ⟨_, last, ordered, _⟩ := Text.between?_eq_some_iff.mp name
    have inside : other.stop.toNat ≤ table.blob.utf8ByteSize := last.le_utf8ByteSize
    obtain ⟨run, belongs, within⟩ := List.mem_flatMap.mp among
    have value := covers.values run belongs record within
    simp [value, returnsString, operand?, named, Operand.areBounds, Operand.isBound,
      Operand.isString, inside, ordered, ordered.trans inside]

theorem accepts_sparseMap (free : type.name ∉ reserved)
    (built : SpanTable.build descriptor.runs = .ok table) :
    accepts type (sparseMap descriptor table) := by
  have mapMade := isMade_mapName type.name
  have different := blobName_ne_mapName type.name
  have constant : declareItem? (fileScope type) (.const (blobName type.name) (.string table.blob)) =
      some (blobScope type (.text table.blob.toByteArray)) :=
    declareItem?_const (fileScope_isMade (isMade_blobName _)) table.blob
  have blobKnows : (blobScope type (Operand.text table.blob.toByteArray)).Knows type :=
    knows_blobScope free
  have named : blobScope type (Operand.text table.blob.toByteArray) (blobName descriptor.typeName) =
      some (.data (.text table.blob.toByteArray)) := covers.name ▸ Scope.declare_self ..
  have map : declareItem? (blobScope type (.text table.blob.toByteArray))
      (.mapVar (mapName type.name) type.name
        (entries descriptor (descriptor.runs.flatMap Run.records) table)) =
          some (tableScope type (.text table.blob.toByteArray) (mapName type.name)
            (.computed (.map type))) := by
    simp only [declareItem?, blobKnows.1, blobKnows.string,
      areEntries_entries covers ascending built named, if_true,
      declare?_eq_some (blobScope_isMade mapMade different)]
    rfl
  have knows : (tableScope type (Operand.text table.blob.toByteArray) (mapName type.name)
      (.computed (.map type))).Knows type := knows_tableScope free mapMade
  obtain ⟨inner, innerEq⟩ : ∃ inner, inner = (tableScope type (Operand.text table.blob.toByteArray)
    (mapName type.name) (.computed (.map type))).declare "i" (.data (.computed (.int type))) :=
    ⟨_, rfl⟩
  have typed : inner "i" = some (.data (.computed (.int type))) := innerEq ▸ Scope.declare_self ..
  have mapped : inner (mapName type.name) = some (.data (.computed (.map type))) := by
    rw [innerEq, Scope.declare_of_ne mapMade.ne_receiver, tableScope_self]
  have otherwise : returnsString inner (fallback descriptor receiver) :=
    returnsString_fallback (innerEq ▸ knows.declare_receiver free) (operand?_receiver typed)
  have body : isBody inner [.ifFound (mapName type.name) "i",
      .simple (.ret (fallback descriptor receiver))] := by
    simp [isBody, Stmt.accepted, mapped, typed, Operand.fits, Simple.accepted, otherwise,
      Stmt.terminates, Simple.terminates]
  have method := declareItem?_stringMethod covers.declared knows
    [.ifFound (mapName type.name) "i", .simple (.ret (fallback descriptor receiver))]
  rw [← innerEq, if_pos body] at method
  rw [sparseMap_eq, ← covers.name, accepts, Bool.and_eq_true, decide_eq_true_eq]
  refine ⟨List.nodup_singleton type.name, ?_⟩
  simp only [List.foldlM_cons, List.foldlM_nil, constant, map, method, Option.bind_eq_bind,
    Option.bind_some]
  rfl

end SparseMap

end EnumNames.Go
