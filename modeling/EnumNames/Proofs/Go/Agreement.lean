import EnumNames.Proofs.Go.Execution

/-! The method of a section returns what the descriptor says, in each of the three shapes. -/
namespace EnumNames.Go
variable {scope : Scope Value} {type : IntType} {descriptor : Descriptor} {run : Run}

/-- What a descriptor says of a word whose record is searched for among all members. -/
def answer (descriptor : Descriptor) (word : UInt64) (found : Option Record) : ByteArray :=
  ((found.map Record.name).getD (descriptor.fallback word)).toByteArray

theorem define_offsetsArray (knows : scope.Knows type) (name : String) (table : NameTable) :
    define scope (name, offsetsArray table) = .ok (scope.declare name
      (.data (.array (.element table.width.bits) table.offsets.toList))) := by
  have bits : table.width.bits ∈ [8, 16, 32] := by
    cases table.width <;> decide
  simp only [define, offsetsArray, evaluate, knows.element bits, bind, Except.bind, pure, Except.pure]

theorem define_string (scope : Scope Value) (name text : String) :
    define scope (name, .string text) =
      .ok (scope.declare name (.data (.text text.toByteArray))) := rfl

theorem foldlM_define {β : Type} {parts : List β} {definition : β → String × Expr}
    {value : β → Value}
    (each : ∀ scope : Scope Value, scope.Knows type → ∀ part ∈ parts,
      define scope (definition part) =
        .ok (scope.declare (definition part).1 (.data (value part))))
    (made : ∀ part ∈ parts, IsMade type.name (definition part).1) (knows : scope.Knows type) :
    (parts.map definition).foldlM define scope = .ok (scope.declareAll (parts.map fun part =>
      ((definition part).1, .data (value part)))) := by
  induction parts generalizing scope with
  | nil => rfl
  | cons part parts ih =>
    rw [List.map_cons, List.foldlM_cons, each scope knows part List.mem_cons_self]
    exact ih (fun scope knows other member => each scope knows other (List.mem_cons_of_mem _ member))
      (fun other member => made other (List.mem_cons_of_mem _ member))
      (knows.declare_isMade (made part List.mem_cons_self))

theorem load_const (scope : Scope Value) (name text : String) :
    load scope (.const name (.string text)) =
      .ok (scope.declare name (.data (.text text.toByteArray))) := rfl

theorem load_stringMethod (scope : Scope Value) (typeName : String) (body : List Stmt) :
    load scope (.stringMethod typeName body) = .ok scope := rfl

theorem callString_eq_ok {items : List Item} {value : Int} {body : List Stmt} {bytes : ByteArray}
    (loaded : items.foldlM load (fileScope type) = .ok scope)
    (method : items.findSome? (body? type.name) = some body)
    (returned : runAll Stmt.run (scope.declare "i" (.data (.int (some type) value))) body =
      .ok (.returned (.text bytes))) : callString type items value = .ok bytes := by
  simp only [callString, loaded, method, returned, bind, Except.bind, pure, Except.pure]

theorem callString_eq_error {items : List Item} {value : Int} {body : List Stmt} {fault : Fault}
    (loaded : items.foldlM load (fileScope type) = .ok scope)
    (method : items.findSome? (body? type.name) = some body)
    (faulty : runAll Stmt.run (scope.declare "i" (.data (.int (some type) value))) body =
      .error fault) : callString type items value = .error fault := by
  simp only [callString, loaded, method, faulty, bind, Except.bind]

/-- The form of a value without a name is made from the receiver. -/
theorem runReturn_fallback (knows : scope.Knows type) (free : type.name ∉ reserved)
    (descriptor : Descriptor) (word : UInt64) :
    runReturn (scope.declare "i" (.data (.int (some type) (descriptor.signedness.read word))))
        (fallback descriptor receiver) =
      .ok (.returned (.text (descriptor.fallback word).toByteArray)) := by
  have held : scope.declare "i" (.data (.int (some type) (descriptor.signedness.read word))) "i" =
      some (.data (.int (some type) (descriptor.signedness.read word))) := Scope.declare_self ..
  rw [runReturn, evaluate_fallback (knows.declare_receiver free) (evaluate_receiver held)]
  rfl

section OneRun
variable (carries : type.Carries descriptor) (member : run ∈ descriptor.runs)
include carries member

theorem evaluate_memberCount (knows : scope.Knows type) {element : IntType} {elements : List Nat}
    (listed : scope (offsetsName type.name) = some (.data (.array element elements)))
    (length : elements.length = run.size + 1) :
    evaluate scope (memberCount type.name (offsetsName type.name)) =
      .ok (.int (some type) run.size) := by
  have count : Value.join .sub (.int (some .int) (run.size + 1 : Nat)) (.int none 1) =
      .ok (.int (some .int) run.size) := by
    have less : ((run.size + 1 : Nat) : Int) - 1 = run.size := by omega
    have whole : IntType.int.wrap (((run.size + 1 : Nat) : Int) - 1) = run.size := by
      rw [less, IntType.wrap_of_holds (carries.lengths run member)]
    change Except.ok (Value.int (some .int) (IntType.int.wrap _)) = _
    rw [whole]
  simp only [memberCount, evaluate, listed, knows.len, knows.1, length, bind, Except.bind, pure,
    Except.pure, count, IntType.wrap_of_holds (carries.sizes run member)]

/-- The receiver is outside exactly if it is no place in the run. -/
theorem evaluate_outside (knows : scope.Knows type) {value : Int} (inside : type.holds value)
    (held : scope "i" = some (.data (.int (some type) value))) {element : IntType}
    {elements : List Nat}
    (listed : scope (offsetsName type.name) = some (.data (.array element elements)))
    (length : elements.length = run.size + 1) :
    evaluate scope (outside descriptor) =
      .ok (.bool !decide (0 ≤ value ∧ value < run.size)) := by
  have receives := evaluate_receiver held
  have count := evaluate_memberCount carries member knows listed length
  have beyond : evaluate scope (.wide .atLeast receiver
      (memberCount type.name (offsetsName type.name))) = .ok (.bool (value ≥ run.size)) :=
    evaluate_comparison rfl receives count (if_pos rfl)
  have negative : evaluate scope (.wide .less receiver (.int 0)) = .ok (.bool (value < 0)) :=
    evaluate_comparison rfl receives rfl rfl
  rw [outside, ← carries.name]
  cases signedness : descriptor.signedness with
  | signed =>
    dsimp only
    rw [evaluate_or negative beyond]
    congr 2
    rw [Bool.eq_iff_iff]
    simp
  | unsigned =>
    dsimp only
    rw [beyond]
    congr 2
    have low : 0 ≤ value := by
      have least := (IntType.holds_iff.mp inside).1
      rwa [IntType.least, carries.signedness, signedness] at least
    rw [Bool.eq_iff_iff]
    simp [low]

omit carries member in
/-- Adding the first value again undoes the shift, wherever it led. -/
theorem evaluate_unshifted {value : Int} (inside : type.holds value)
    (held : scope "i" = some (.data (.int (some type)
      (type.wrap (value - descriptor.signedness.read run.min))))) :
    evaluate scope (unshifted descriptor run) = .ok (.int (some type) value) := by
  have receives := evaluate_receiver held
  unfold unshifted
  split
  · rename_i zero
    rw [receives, zero, read_zero, Int.sub_zero, IntType.wrap_of_holds inside]
  · have sum : evaluate scope (.wide .add receiver (.int (descriptor.signedness.read run.min))) =
        .ok (.int (some type) (type.wrap (type.wrap (value - descriptor.signedness.read run.min) +
          descriptor.signedness.read run.min))) := evaluate_arithmetic rfl receives rfl rfl
    rw [sum, IntType.wrap_sub_add inside]

/-- The shifted receiver is a place in the run exactly for the values of the run. -/
theorem distance_iff (consecutive : run.Consecutive descriptor.signedness) {value : Int}
    (inside : type.holds value) :
    0 ≤ type.wrap (value - descriptor.signedness.read run.min) ∧
        type.wrap (value - descriptor.signedness.read run.min) < run.size ↔
      descriptor.signedness.read run.min ≤ value ∧
        value < descriptor.signedness.read run.min + run.size := by
  have positive : 0 < run.size := Nat.succ_pos _
  have last : descriptor.signedness.read run.min + run.size - 1 =
      descriptor.signedness.read run.max := by
    rw [consecutive.read_max]
    omega
  exact IntType.wrap_sub_lt_iff inside (carries.holds_min member)
    (last ▸ carries.holds_max member) (IntType.holds_nat.mp (carries.sizes run member))

theorem holds_place {place : Nat} {record : Record} (found : run.records[place]? = some record) :
    type.holds place ∧ type.holds (place + 1 : Nat) := by
  obtain ⟨bound, _⟩ := List.getElem?_eq_some_iff.mp found
  have size := IntType.holds_nat.mp (carries.sizes run member)
  change place < run.size at bound
  exact ⟨IntType.holds_nat.mpr (by omega), IntType.holds_nat.mpr (by omega)⟩

/-- For a value of the run, the shifted receiver is its place. -/
theorem wrap_distance {place : Nat} {record : Record} (found : run.records[place]? = some record)
    {value : Int} (number : value = descriptor.signedness.read run.min + place) :
    type.wrap (value - descriptor.signedness.read run.min) = place := by
  have same : value - descriptor.signedness.read run.min = place := by omega
  rw [same, IntType.wrap_of_holds (holds_place carries member found).1]

theorem runAll_oneRun (knows : scope.Knows type) (free : type.name ∉ reserved)
    {table : NameTable} (built : NameTable.build run.records = .ok table)
    (consecutive : run.Consecutive descriptor.signedness)
    (named : scope (blobName type.name) = some (.data (.text table.blob.toByteArray)))
    {element : IntType}
    (listed : scope (offsetsName type.name) = some (.data (.array element table.offsets.toList)))
    {word : UInt64} (inside : type.holds (descriptor.signedness.read word)) :
    runAll Stmt.run
        (scope.declare "i" (.data (.int (some type) (descriptor.signedness.read word))))
        (oneRunBody descriptor run) =
      .ok (.returned (.text (answer descriptor word (Record.declared? run.records word)))) := by
  have length : table.offsets.toList.length = run.size + 1 := NameTable.length_offsets built
  obtain ⟨inner, innerEq⟩ : ∃ inner, inner = scope.declare "i" (.data (.int (some type)
    (type.wrap (descriptor.signedness.read word - descriptor.signedness.read run.min)))) :=
    ⟨_, rfl⟩
  have held : inner "i" = some (.data (.int (some type) (type.wrap
      (descriptor.signedness.read word - descriptor.signedness.read run.min)))) :=
    innerEq ▸ Scope.declare_self ..
  have innerKnows : inner.Knows type := innerEq ▸ knows.declare_receiver free
  have other {name : String} (made : IsMade type.name name) : inner name = scope name :=
    innerEq ▸ Scope.declare_of_ne made.ne_receiver
  rw [← other (isMade_blobName _)] at named
  rw [← other (isMade_offsetsName _)] at listed
  have tested : evaluate inner (outside descriptor) = .ok (.bool !decide
      (descriptor.signedness.read run.min ≤ descriptor.signedness.read word ∧
        descriptor.signedness.read word < descriptor.signedness.read run.min + run.size)) := by
    rw [evaluate_outside carries member innerKnows (type.holds_wrap _) held listed length]
    simp only [distance_iff carries member consecutive inside]
  have restored := evaluate_unshifted inside held
  have form := evaluate_fallback innerKnows restored
  have embedded (scope : Scope Value) (statement : Simple) :
      Stmt.run scope (.simple statement) = statement.run scope := rfl
  rw [oneRunBody, runAll_shift scope descriptor run embedded inside, ← innerEq, ← carries.name]
  rcases consecutive.declared?_cases word with ⟨place, record, found, first, number⟩ | ⟨none, beyond⟩
  · have next := (holds_place carries member found).2
    obtain ⟨bound, _⟩ := List.getElem?_eq_some_iff.mp found
    change place < run.size at bound
    have within : descriptor.signedness.read run.min ≤ descriptor.signedness.read word ∧
        descriptor.signedness.read word < descriptor.signedness.read run.min + run.size := by
      omega
    have distance := wrap_distance carries member found number
    have name := evaluate_nameAtReceiver built found next (distance ▸ held) named listed
    simp only [runAll, Stmt.run, Simple.run, runReturn, tested, within, name, first, answer, bind,
      Except.bind, pure, Except.pure, and_self, decide_true, Bool.not_true, Option.map_some,
      Option.getD_some]
  · simp only [runAll, Stmt.run, runReturn, tested, beyond, form, none, answer, bind, Except.bind,
      pure, Except.pure, decide_false, Bool.not_false, Option.map_none, Option.getD_none]

theorem callString_oneRun (free : type.name ∉ reserved) {table : NameTable}
    (built : NameTable.build run.records = .ok table)
    (consecutive : run.Consecutive descriptor.signedness) {word : UInt64}
    (inside : type.holds (descriptor.signedness.read word)) :
    callString type (oneRun descriptor run table) (descriptor.signedness.read word) =
      .ok (answer descriptor word (Record.declared? run.records word)) := by
  have offsetsMade := isMade_offsetsName type.name
  have different := blobName_ne_offsetsName type.name
  have constant : load (fileScope type) (.const (blobName type.name) (.string table.blob)) =
      .ok (blobScope type (.text table.blob.toByteArray)) := load_const ..
  have array : load (blobScope type (.text table.blob.toByteArray))
      (.var (offsetsName type.name) (offsetsArray table)) =
        .ok (tableScope type (.text table.blob.toByteArray) (offsetsName type.name)
          (.array (.element table.width.bits) table.offsets.toList)) :=
    define_offsetsArray (knows_blobScope free) (offsetsName type.name) table
  have listed : tableScope type (Value.text table.blob.toByteArray) (offsetsName type.name)
      (.array (.element table.width.bits) table.offsets.toList) (offsetsName type.name) =
        some (.data (.array (.element table.width.bits) table.offsets.toList)) := tableScope_self
  have run := runAll_oneRun carries member (knows_tableScope free offsetsMade) free built
    consecutive (tableScope_blobName different) listed inside
  rw [oneRun_eq, ← oneRunBody, ← carries.name]
  refine callString_eq_ok ?_ ?_ run
  · simp only [List.foldlM_cons, List.foldlM_nil, constant, array, load_stringMethod, bind,
      Except.bind, pure, Except.pure]
  · simp only [List.findSome?_cons, body?, if_true]

end OneRun

section MultiRun

/-- The condition of a case holds exactly for the values of its run. -/
theorem evaluate_condition (consecutive : run.Consecutive descriptor.signedness) {word : UInt64}
    (held : scope "i" = some (.data (.int (some type) (descriptor.signedness.read word))))
    (place : Nat) : evaluate scope (arm descriptor run place).condition = .ok (.bool (decide
      (descriptor.signedness.read run.min ≤ descriptor.signedness.read word ∧
        descriptor.signedness.read word < descriptor.signedness.read run.min + run.size))) := by
  have receives := evaluate_receiver held
  have last := consecutive.read_max
  have atMost : evaluate scope (.wide .atMost receiver
      (.int (descriptor.signedness.read run.max))) = .ok (.bool
        (descriptor.signedness.read word ≤ descriptor.signedness.read run.max)) :=
    evaluate_comparison rfl receives rfl rfl
  have atLeast : evaluate scope (.wide .atMost (.int (descriptor.signedness.read run.min))
      receiver) = .ok (.bool
        (descriptor.signedness.read run.min ≤ descriptor.signedness.read word)) :=
    evaluate_comparison rfl rfl receives rfl
  have size : run.size = run.others.length + 1 := rfl
  unfold arm
  split
  · rename_i single
    have equal : evaluate scope (.wide .equal receiver (.int (descriptor.signedness.read run.min))) =
        .ok (.bool (descriptor.signedness.read word == descriptor.signedness.read run.min)) :=
      evaluate_comparison rfl receives rfl rfl
    rw [List.isEmpty_iff.mp single, List.length_nil] at size
    rw [equal]
    congr 2
    rw [Bool.eq_iff_iff, beq_iff_eq, decide_eq_true_eq]
    omega
  · dsimp only
    split
    · rename_i plain
      have least := descriptor.signedness.least_le_read word
      rw [plain.2, Signedness.least] at least
      rw [atMost, last]
      congr 2
      rw [decide_eq_decide, plain.1, read_zero, plain.2]
      omega
    · rw [evaluate_and atLeast atMost, last]
      congr 2
      rw [Bool.eq_iff_iff, Bool.and_eq_true, decide_eq_true_eq, decide_eq_true_eq,
        decide_eq_true_eq]
      omega

/-- The first case decides if its run has the value of the receiver. -/
theorem runCases_cons (consecutive : run.Consecutive descriptor.signedness) {word : UInt64}
    (held : scope "i" = some (.data (.int (some type) (descriptor.signedness.read word))))
    (place : Nat) (otherwise : Expr) (rest : List Arm) :
    runCases scope otherwise (arm descriptor run place :: rest) =
      if (Record.declared? run.records word).isSome then
        runAll Simple.run scope (arm descriptor run place).body
      else runCases scope otherwise rest := by
  rw [runCases, evaluate_condition consecutive held place]
  rcases consecutive.declared?_cases word with ⟨index, record, found, first, number⟩ | ⟨none, beyond⟩
  · obtain ⟨bound, _⟩ := List.getElem?_eq_some_iff.mp found
    change index < run.size at bound
    have within : descriptor.signedness.read run.min ≤ descriptor.signedness.read word ∧
        descriptor.signedness.read word < descriptor.signedness.read run.min + run.size := by
      omega
    rw [first, decide_eq_true within]
    rfl
  · rw [none, decide_eq_false beyond]
    rfl

variable (carries : type.Carries descriptor)
include carries

/-- The case of a run returns the name of its member. -/
theorem runAll_arm (member : run ∈ descriptor.runs) {table : NameTable}
    (built : NameTable.build run.records = .ok table) {count place : Nat}
    (named : scope (numbered (blobName type.name) count) =
      some (.data (.text table.blob.toByteArray)))
    {element : IntType} (listed : run.others.isEmpty = false →
      scope (numbered (offsetsName type.name) count) =
        some (.data (.array element table.offsets.toList)))
    {record : Record} (found : run.records[place]? = some record) {value : Int}
    (inside : type.holds value) (number : value = descriptor.signedness.read run.min + place) :
    runAll Simple.run (scope.declare "i" (.data (.int (some type) value)))
        (arm descriptor run count).body =
      .ok (.returned (.text record.name.toByteArray)) := by
  have blobMade := (isMade_blobName type.name).numbered count
  have offsetsMade := (isMade_offsetsName type.name).numbered count
  have other {name : String} (made : IsMade type.name name) (entity : Entity Value) :
      scope.declare "i" entity name = scope name := Scope.declare_of_ne made.ne_receiver
  unfold arm
  cases single : run.others.isEmpty with
  | true =>
    -- The only name is the whole text.
    have alone : run.records = [run.first] := by
      rw [Run.records, List.isEmpty_iff.mp single]
    obtain ⟨blob, _⟩ := NameTable.build_eq_ok built
    rw [alone, List.getElem?_singleton] at found
    split at found
    · cases found
      rw [if_pos rfl, ← carries.name]
      simp only [runAll, Simple.run, runReturn, evaluate, other blobMade, named, bind, Except.bind,
        pure, Except.pure, blob, alone, Record.joined, List.map_cons, List.map_nil]
      simp
    · cases found
  | false =>
    have name := evaluate_nameAtReceiver built found (holds_place carries member found).2
      (Scope.declare_self ..) ((other blobMade _).trans named)
      ((other offsetsMade _).trans (listed single))
    rw [if_neg (by simp), runAll_shift_append scope descriptor run inside,
      wrap_distance carries member found number, ← carries.name]
    simp only [runAll, Simple.run, runReturn, name, bind, Except.bind, pure, Except.pure]

/-- The first case that holds is the one of the run that has the word. -/
theorem runCases_arms {runs : List Run} {tables : List NameTable}
    (built : List.Forall₂ (fun run table => NameTable.build run.records = .ok table) runs tables)
    (among : ∀ run ∈ runs, run ∈ descriptor.runs)
    (consecutive : ∀ run ∈ runs, run.Consecutive descriptor.signedness) (count : Nat)
    (declared : ∀ part ∈ (runs.zip tables).zipIdx count,
      scope (numbered (blobName type.name) part.2) =
        some (.data (.text part.1.2.blob.toByteArray)) ∧
      (part.1.1.others.isEmpty = false → scope (numbered (offsetsName type.name) part.2) =
        some (.data (.array (.element part.1.2.width.bits) part.1.2.offsets.toList))))
    {word : UInt64} (inside : type.holds (descriptor.signedness.read word)) (otherwise : Expr) :
    runCases (scope.declare "i" (.data (.int (some type) (descriptor.signedness.read word))))
        otherwise ((runs.zipIdx count).map fun (run, place) => arm descriptor run place) =
      match Record.declared? (runs.flatMap Run.records) word with
      | some record => .ok (.returned (.text record.name.toByteArray))
      | none => runReturn
        (scope.declare "i" (.data (.int (some type) (descriptor.signedness.read word))))
        otherwise := by
  induction built generalizing count with
  | nil => rfl
  | @cons run table runs tables packed built ih =>
    have rest := ih (fun other member => among other (List.mem_cons_of_mem _ member))
      (fun other member => consecutive other (List.mem_cons_of_mem _ member)) (count + 1)
      (fun part member => declared part (List.mem_cons_of_mem _ member))
    obtain ⟨named, listed⟩ := declared ((run, table), count) List.mem_cons_self
    have counted := consecutive run List.mem_cons_self
    have held : (scope.declare "i" (.data (.int (some type) (descriptor.signedness.read word)))) "i" =
        some (.data (.int (some type) (descriptor.signedness.read word))) := Scope.declare_self ..
    have whole : Record.declared? ((run :: runs).flatMap Run.records) word =
        (Record.declared? run.records word).or
          (Record.declared? (runs.flatMap Run.records) word) := by
      simp only [Record.declared?, List.flatMap_cons, List.find?_append]
    rw [List.zipIdx_cons, List.map_cons, runCases_cons counted held, whole]
    rcases counted.declared?_cases word with ⟨place, record, found, first, number⟩ | ⟨none, _⟩
    · rw [first, Option.isSome_some, if_pos rfl, Option.some_or,
        runAll_arm carries (among run List.mem_cons_self) packed named listed found inside number]
    · rw [none, Option.isSome_none, if_neg Bool.false_ne_true, Option.none_or, rest]

/-- The scope of a method, as it is when the program runs. -/
def loadedScope (type : IntType) (runs : List Run) (tables : List NameTable) : Scope Value :=
  runScope type runs tables (fun blob => .text blob.toByteArray) fun table =>
    .array (.element table.width.bits) table.offsets.toList

omit carries in
theorem define_blobs (free : type.name ∉ reserved) (tables : List NameTable) :
    (blobs type.name tables 0).foldlM define (fileScope type) =
      .ok ((fileScope type).declareAll
        (blobEntities type.name tables fun blob => .text blob.toByteArray)) := by
  rw [blobs_eq]
  refine foldlM_define ?_ ?_ (knows_fileScope free)
  · intro scope knows part member
    exact define_string scope _ _
  · intro part member
    exact (isMade_blobName _).numbered _

omit carries in
theorem define_offsets (free : type.name ∉ reserved) (runs : List Run) (tables : List NameTable) :
    (offsets type.name runs tables 0).foldlM define ((fileScope type).declareAll
      (blobEntities type.name tables fun blob => .text blob.toByteArray)) =
        .ok (loadedScope type runs tables) := by
  rw [offsets_eq]
  refine foldlM_define ?_ ?_ ((knows_fileScope free).declareAll (isMade_blobEntities _ _ _))
  · intro scope knows part member
    exact define_offsetsArray knows _ _
  · intro part member
    exact (isMade_offsetsName _).numbered _

omit carries in
theorem load_multiRun (name : type.name = descriptor.typeName) (free : type.name ∉ reserved)
    (tables : List NameTable) : (multiRun descriptor tables).foldlM load (fileScope type) =
      .ok (loadedScope type descriptor.runs tables) := by
  have constants := define_blobs free tables
  have arrays := define_offsets free descriptor.runs tables
  rw [multiRun_eq, ← name]
  cases none : (offsets type.name descriptor.runs tables 0).isEmpty with
  | true =>
    rw [List.isEmpty_iff.mp none, List.foldlM_nil] at arrays
    simp only [if_true, List.append_nil, List.cons_append, List.nil_append, List.foldlM_cons,
      List.foldlM_nil, load, constants, bind, Except.bind, pure, Except.pure,
      Except.ok.inj arrays]
  | false =>
    simp only [if_false, List.cons_append, List.nil_append, List.foldlM_cons, List.foldlM_nil,
      load, constants, arrays, bind, Except.bind, pure, Except.pure, Bool.false_eq_true]

omit carries in
theorem body?_multiRun (descriptor : Descriptor) (tables : List NameTable) :
    (multiRun descriptor tables).findSome? (body? descriptor.typeName) =
      some [.switch (arms descriptor) (fallback descriptor receiver)] := by
  rw [multiRun_eq]
  split <;> simp [List.findSome?_cons, body?]

omit carries in
/-- What the cases of the runs read is declared. -/
theorem loadedScope_part {tables : List NameTable} :
    ∀ part ∈ (descriptor.runs.zip tables).zipIdx,
      loadedScope type descriptor.runs tables (numbered (blobName type.name) part.2) =
        some (.data (.text part.1.2.blob.toByteArray)) ∧
      (part.1.1.others.isEmpty = false →
        loadedScope type descriptor.runs tables (numbered (offsetsName type.name) part.2) =
          some (.data (.array (.element part.1.2.width.bits) part.1.2.offsets.toList))) := by
  intro part member
  obtain ⟨hasRun, hasTable⟩ :=
    List.getElem?_zip_eq_some.mp (List.mem_zipIdx_iff_getElem?.mp member)
  exact ⟨runScope_blob _ _ hasTable, runScope_offsets _ _ hasRun hasTable⟩

theorem callString_multiRun (free : type.name ∉ reserved) {tables : List NameTable}
    (built : List.Forall₂ (fun run table => NameTable.build run.records = .ok table)
      descriptor.runs tables)
    (consecutive : ∀ run ∈ descriptor.runs, run.Consecutive descriptor.signedness) {word : UInt64}
    (inside : type.holds (descriptor.signedness.read word)) :
    callString type (multiRun descriptor tables) (descriptor.signedness.read word) =
      .ok (answer descriptor word
        (Record.declared? (descriptor.runs.flatMap Run.records) word)) := by
  have knows : (loadedScope type descriptor.runs tables).Knows type := knows_runScope _ _ free
  have cases := runCases_arms carries built (fun _ member => member) consecutive 0 loadedScope_part
    inside (fallback descriptor receiver)
  rw [runReturn_fallback knows free] at cases
  refine callString_eq_ok (load_multiRun carries.name free tables)
    (carries.name ▸ body?_multiRun descriptor tables) ?_
  simp only [runAll, Stmt.run, arms, cases]
  cases Record.declared? (descriptor.runs.flatMap Run.records) word <;> rfl

end MultiRun

section SparseMap

/-- The entries of the map give each member its name. -/
theorem mapM_entry {table : SpanTable}
    (named : scope (blobName descriptor.typeName) = some (.data (.text table.blob.toByteArray)))
    {members : List Record} (spans : ∀ record ∈ members, ∃ span,
      table.span? record.value = some span ∧
        Text.between? table.blob span.start.toNat span.stop.toNat = some record.name) :
    (entries descriptor members table).mapM (entry scope) = .ok (members.map fun record =>
      (descriptor.signedness.read record.value, record.name.toByteArray)) := by
  induction members with
  | nil => rfl
  | cons record members ih =>
    obtain ⟨⟨span, found, name⟩, others⟩ := List.forall_mem_cons.mp spans
    obtain ⟨_, inside, ordered, bytes⟩ := Text.between?_eq_some_iff.mp name
    have bound : span.stop.toNat ≤ table.blob.utf8ByteSize := inside.le_utf8ByteSize
    have part : entry scope (descriptor.signedness.read record.value,
        .slice (.name (blobName descriptor.typeName)) (.int span.start.toNat)
          (.int span.stop.toNat)) =
        .ok (descriptor.signedness.read record.value, record.name.toByteArray) := by
      simp only [entry, evaluate, named, bind, Except.bind, pure, Except.pure,
        cut_text ordered (String.size_toByteArray ▸ bound), bytes]
    rw [entries_cons members found, List.mapM_cons, part, ih others]
    rfl

/-- Looking an integer up is searching for the word that stands for it. -/
theorem lookup_members (signedness : Signedness) (members : List Record) (word : UInt64) :
    (members.map fun record => (signedness.read record.value, record.name.toByteArray)).lookup
        (signedness.read word) =
      (Record.declared? members word).map fun record => record.name.toByteArray := by
  induction members with
  | nil => rfl
  | cons record members ih =>
    rw [List.map_cons, List.lookup_cons, ih]
    by_cases same : record.value = word
    · simp [Record.declared?, same]
    · have different : signedness.read word ≠ signedness.read record.value :=
        fun equal => same (Signedness.read_inj.mp equal).symm
      rw [beq_eq_false_iff_ne.mpr different]
      simp [Record.declared?, same]

theorem callString_sparseMap (covers : type.Covers descriptor) (free : type.name ∉ reserved)
    {table : SpanTable} (built : SpanTable.build descriptor.runs = .ok table)
    (ascending : Record.Ascending descriptor.signedness (descriptor.runs.flatMap Run.records))
    (word : UInt64) :
    callString type (sparseMap descriptor table) (descriptor.signedness.read word) =
      .ok (answer descriptor word
        (Record.declared? (descriptor.runs.flatMap Run.records) word)) := by
  have mapMade := isMade_mapName type.name
  have constant : load (fileScope type) (.const (blobName type.name) (.string table.blob)) =
      .ok (blobScope type (.text table.blob.toByteArray)) := load_const ..
  have blobKnows : (blobScope type (Value.text table.blob.toByteArray)).Knows type :=
    knows_blobScope free
  have named : blobScope type (Value.text table.blob.toByteArray) (blobName descriptor.typeName) =
      some (.data (.text table.blob.toByteArray)) := covers.name ▸ Scope.declare_self ..
  have members := mapM_entry named fun record member =>
    SpanTable.span?_of_mem built ascending.values_nodup member
  obtain ⟨names, namesEq⟩ : ∃ names, names = (descriptor.runs.flatMap Run.records).map
    fun record => (descriptor.signedness.read record.value, record.name.toByteArray) := ⟨_, rfl⟩
  have map : load (blobScope type (.text table.blob.toByteArray))
      (.mapVar (mapName type.name) type.name
        (entries descriptor (descriptor.runs.flatMap Run.records) table)) =
          .ok (tableScope type (.text table.blob.toByteArray) (mapName type.name)
            (.map type names)) := by
    simp only [load, blobKnows.1, members, bind, Except.bind, pure, Except.pure, namesEq]
    rfl
  have knows : (tableScope type (Value.text table.blob.toByteArray) (mapName type.name)
      (.map type names)).Knows type := knows_tableScope free mapMade
  have form := runReturn_fallback knows free descriptor word
  obtain ⟨inner, innerEq⟩ : ∃ inner, inner = (tableScope type (Value.text table.blob.toByteArray)
    (mapName type.name) (.map type names)).declare "i"
      (.data (.int (some type) (descriptor.signedness.read word))) := ⟨_, rfl⟩
  have held : inner "i" = some (.data (.int (some type) (descriptor.signedness.read word))) :=
    innerEq ▸ Scope.declare_self ..
  have mapped : inner (mapName type.name) = some (.data (.map type names)) := by
    rw [innerEq, Scope.declare_of_ne mapMade.ne_receiver, tableScope_self]
  have body : runAll Stmt.run inner [.ifFound (mapName type.name) "i",
      .simple (.ret (fallback descriptor receiver))] =
        .ok (.returned (.text (answer descriptor word
          (Record.declared? (descriptor.runs.flatMap Run.records) word)))) := by
    rw [← innerEq] at form
    simp only [runAll, Stmt.run, mapped, held, namesEq, lookup_members, bind, Except.bind]
    cases Record.declared? (descriptor.runs.flatMap Run.records) word with
    | some record => rfl
    | none => simp only [Option.map_none, Simple.run, form]; rfl
  rw [sparseMap_eq, ← covers.name]
  refine callString_eq_ok ?_ ?_ (innerEq ▸ body)
  · simp only [List.foldlM_cons, List.foldlM_nil, constant, map, load_stringMethod, bind,
      Except.bind, pure, Except.pure]
  · simp only [List.findSome?_cons, body?, if_true]

end SparseMap

end EnumNames.Go
