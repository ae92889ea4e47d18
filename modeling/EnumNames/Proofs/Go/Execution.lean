import EnumNames.Proofs.Go.Acceptance
import EnumNames.Proofs.Go.Evaluation

/-! What the parts of a method do: the test for a value, the shift of the receiver, the name at a
place and the form of a value without a name. -/
namespace EnumNames.Go
variable {scope : Scope Value} {type : IntType} {descriptor : Descriptor} {run : Run}

theorem read_zero (signedness : Signedness) : signedness.read 0 = 0 := by
  cases signedness <;> rfl

theorem evaluate_receiver {value : Int}
    (held : scope "i" = some (.data (.int (some type) value))) :
    evaluate scope receiver = .ok (.int (some type) value) := by
  simp only [receiver, evaluate, held]

/-- A comparison of a value with a constant or with a value of the same type. -/
theorem evaluate_comparison {joining : Operator} {left right : Expr}
    {kind other common : Option IntType} {a b : Int} (compares : joining.comparison?.isSome)
    (leftValue : evaluate scope left = .ok (.int kind a))
    (rightValue : evaluate scope right = .ok (.int other b))
    (same : Value.commonType kind other = .ok common) :
    evaluate scope (.wide joining left right) =
      .ok (.bool (joining.comparison?.getD (fun _ _ => false) a b)) := by
  cases joining with
  | equal | less | atMost | atLeast =>
    simp [evaluate, leftValue, rightValue, Value.join, same, Operator.arithmetic?,
      Operator.comparison?, bind, Except.bind, pure, Except.pure]
  | _ => cases compares

theorem evaluate_arithmetic {joining : Operator} {left right : Expr} {kind other : Option IntType}
    {a b : Int} (computes : joining.arithmetic?.isSome)
    (leftValue : evaluate scope left = .ok (.int kind a))
    (rightValue : evaluate scope right = .ok (.int other b))
    (same : Value.commonType kind other = .ok (some type)) :
    evaluate scope (.wide joining left right) =
      .ok (.int (some type) (type.wrap (joining.arithmetic?.getD (fun _ _ => 0) a b))) := by
  cases joining with
  | add | sub =>
    simp [evaluate, leftValue, rightValue, Value.join, same, Operator.arithmetic?, bind,
      Except.bind, pure, Except.pure]
  | _ => cases computes

theorem evaluate_and {left right : Expr} {a b : Bool}
    (leftValue : evaluate scope left = .ok (.bool a))
    (rightValue : evaluate scope right = .ok (.bool b)) :
    evaluate scope (.wide .and left right) = .ok (.bool (a && b)) := by
  cases a <;> simp [evaluate, leftValue, rightValue, bind, Except.bind, pure, Except.pure]

theorem evaluate_or {left right : Expr} {a b : Bool}
    (leftValue : evaluate scope left = .ok (.bool a))
    (rightValue : evaluate scope right = .ok (.bool b)) :
    evaluate scope (.wide .or left right) = .ok (.bool (a || b)) := by
  cases a <;> simp [evaluate, leftValue, rightValue, bind, Except.bind, pure, Except.pure]

/-- The type of 64 bits holds every number that a word stands for. -/
theorem wrap_read (signedness : Signedness) (word : UInt64) :
    (match signedness with
      | .signed => IntType.int64
      | .unsigned => IntType.uint64).wrap (signedness.read word) = signedness.read word := by
  have lower := signedness.least_le_read word
  have upper := signedness.read_lt word
  apply IntType.wrap_of_holds
  rw [IntType.holds_iff]
  cases signedness with
  | signed =>
    have least : IntType.int64.least = -0x8000000000000000 := by decide
    have greatest : IntType.int64.greatest = 0x7fffffffffffffff := by decide
    rw [least, greatest]
    rw [Signedness.least] at lower upper
    omega
  | unsigned =>
    have least : IntType.uint64.least = 0 := by decide
    have greatest : IntType.uint64.greatest = 0xffffffffffffffff := by decide
    rw [least, greatest]
    rw [Signedness.least] at lower upper
    omega

theorem evaluate_fallback (knows : scope.Knows type) {value : Expr} {kind : Option IntType}
    {word : UInt64}
    (valued : evaluate scope value = .ok (.int kind (descriptor.signedness.read word))) :
    evaluate scope (fallback descriptor value) =
      .ok (.text (descriptor.fallback word).toByteArray) := by
  have inside := wrap_read descriptor.signedness word
  cases signedness : descriptor.signedness <;>
    rw [signedness] at valued inside <;>
    simp [fallback, signedness, evaluate, valued, knows.strconv, knows.int64, knows.uint64, inside,
      Value.join, Descriptor.fallback, Signedness.decimal, bind, Except.bind, pure, Except.pure]

theorem select_array {element : IntType} {elements : List Nat} {place value : Nat}
    (found : elements[place]? = some value) (kind : Option IntType) :
    Value.select (.array element elements) (.int kind place) = .ok (.int (some element) value) := by
  have inside : ¬ ((place : Int) < 0) := by omega
  simp only [Value.select, inside, if_false, Int.toNat_natCast, found]

theorem cut_text {bytes : ByteArray} {start stop : Nat} (ordered : start ≤ stop)
    (inside : stop ≤ bytes.size) (kind other : Option IntType) :
    Value.cut (.text bytes) (.int kind start) (.int other stop) =
      .ok (.text (bytes.extract start stop)) := by
  simp only [Value.cut, Int.toNat_natCast]
  exact if_pos ⟨by omega, by omega, by omega⟩

theorem evaluate_nameAtReceiver {table : NameTable} (built : NameTable.build run.records = .ok table)
    {place : Nat} {record : Record} (found : run.records[place]? = some record)
    (next : type.holds (place + 1 : Nat))
    (held : scope "i" = some (.data (.int (some type) place))) {blob offsets : String}
    {element : IntType} (named : scope blob = some (.data (.text table.blob.toByteArray)))
    (listed : scope offsets = some (.data (.array element table.offsets.toList))) :
    evaluate scope (nameAtReceiver blob offsets) = .ok (.text record.name.toByteArray) := by
  obtain ⟨start, stop, first, last, name⟩ := NameTable.between?_build built found
  obtain ⟨_, inside, ordered, bytes⟩ := Text.between?_eq_some_iff.mp name
  have bound : stop ≤ table.blob.utf8ByteSize := inside.le_utf8ByteSize
  have wrapped : type.wrap ((place : Int) + 1) = ((place + 1 : Nat) : Int) :=
    IntType.wrap_of_holds next
  have advanced : Value.join .add (.int (some type) place) (.int none 1) =
      .ok (.int (some type) ((place + 1 : Nat) : Int)) := by
    rw [← wrapped]
    rfl
  simp only [nameAtReceiver, evaluate, named, listed, evaluate_receiver held, bind, Except.bind,
    advanced, select_array first, select_array last,
    cut_text ordered (String.size_toByteArray ▸ bound), bytes]

/-- Statements behind a shift run on the distance from the first value. -/
theorem runAll_shift (scope : Scope Value) (descriptor : Descriptor) (run : Run) {σ : Type}
    {run' : Scope Value → σ → Except Fault Outcome} {f : Simple → σ}
    (same : ∀ scope statement, run' scope (f statement) = statement.run scope) {value : Int}
    (inside : type.holds value) (rest : List σ) :
    runAll run' (scope.declare "i" (.data (.int (some type) value)))
        ((shift descriptor run).map f ++ rest) =
      runAll run' (scope.declare "i" (.data (.int (some type)
        (type.wrap (value - descriptor.signedness.read run.min))))) rest := by
  unfold shift
  split
  · rename_i zero
    rw [zero, read_zero, Int.sub_zero, IntType.wrap_of_holds inside]
    rfl
  · have shifted : evaluate (scope.declare "i" (.data (.int (some type) value)))
        (.wide .sub (.name "i") (.int (descriptor.signedness.read run.min))) =
          .ok (.int (some type) (type.wrap (value - descriptor.signedness.read run.min))) :=
      evaluate_arithmetic rfl (evaluate_receiver (Scope.declare_self ..)) rfl rfl
    simp only [List.map_cons, List.map_nil, List.cons_append, List.nil_append, runAll, same,
      Simple.run, shifted, bind, Except.bind, pure, Except.pure, Scope.declare_declare]

/-- The same for the statements of a case. -/
theorem runAll_shift_append (scope : Scope Value) (descriptor : Descriptor) (run : Run)
    {value : Int} (inside : type.holds value) (rest : List Simple) :
    runAll Simple.run (scope.declare "i" (.data (.int (some type) value)))
        (shift descriptor run ++ rest) =
      runAll Simple.run (scope.declare "i" (.data (.int (some type)
        (type.wrap (value - descriptor.signedness.read run.min))))) rest := by
  have embedded (scope : Scope Value) (statement : Simple) :
      Simple.run scope (id statement) = statement.run scope := rfl
  have shifted := runAll_shift scope descriptor run embedded inside rest
  rwa [List.map_id] at shifted

end EnumNames.Go
