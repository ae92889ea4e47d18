import EnumNames.Writer

/-! Writing pieces one after the other. A sequence goes on as long as its pieces are taken, so
nothing is tried behind the first that fails, whatever takes the pieces and in whatever parts. -/
namespace EnumNames.Writer

variable {σ : Type} (writer : Writer σ) {pieces : List String} {state final : σ}

theorem writeAll_cons (piece : String) (pieces : List String) (state : σ) :
    writer.writeAll (piece :: pieces) state =
      (writer.write state piece).bind (writer.writeAll pieces) := by
  rw [writeAll, List.foldlM_cons]
  rfl

theorem writeAll_append (first second : List String) (state : σ) :
    writer.writeAll (first ++ second) state =
      (writer.writeAll first state).bind (writer.writeAll second) := by
  simp only [writeAll, List.foldlM_append]
  rfl

/-- Pieces in parts are written like the parts of all pieces. -/
theorem writeAll_inParts (parts : String → List String) (pieces : List String) (state : σ) :
    (writer.inParts parts).writeAll pieces state =
      writer.writeAll (pieces.flatMap parts) state := by
  induction pieces generalizing state with
  | nil => rfl
  | cons piece pieces ih =>
    rw [writeAll_cons, List.flatMap_cons, writeAll_append]
    exact congrArg (Except.bind _) (funext ih)

variable {writer}

/-- A sequence that fails has written all pieces in front of one that fails, and ends with that
piece. -/
theorem writeAll_eq_error (failed : writer.writeAll pieces state = .error final) :
    ∃ before piece after reached, pieces = before ++ piece :: after ∧
      writer.writeAll before state = .ok reached ∧ writer.write reached piece = .error final := by
  induction pieces generalizing state with
  | nil => cases failed
  | cons piece pieces ih =>
    rw [writeAll_cons] at failed
    cases first : writer.write state piece with
    | error stopped =>
      rw [first] at failed
      cases failed
      exact ⟨[], piece, pieces, state, rfl, rfl, first⟩
    | ok next =>
      rw [first] at failed
      obtain ⟨before, last, after, reached, rfl, wrote, stopped⟩ := ih failed
      refine ⟨piece :: before, last, after, reached, rfl, ?_, stopped⟩
      rw [writeAll_cons, first]
      exact wrote

/-- What is taken is on record. -/
theorem writeAll_recorded (wrote : writer.writeAll pieces state = .ok final)
    (tried : List String) :
    writer.recorded.writeAll pieces (state, tried) = .ok (final, tried ++ pieces) := by
  induction pieces generalizing state tried with
  | nil =>
    cases wrote
    rw [List.append_nil]
    rfl
  | cons piece pieces ih =>
    rw [writeAll_cons] at wrote
    cases first : writer.write state piece with
    | error stopped =>
      rw [first] at wrote
      cases wrote
    | ok next =>
      rw [first] at wrote
      have taken : writer.recorded.write (state, tried) piece = .ok (next, tried ++ [piece]) := by
        simp only [recorded, first]
      have rest := ih wrote (tried ++ [piece])
      rw [List.append_assoc, List.singleton_append] at rest
      rw [writeAll_cons, taken]
      exact rest

/-- An operation writes these pieces, in order and nothing else, whatever takes them and in whatever
parts. All parts are tried if they are taken, and otherwise those up to the first that fails. -/
structure Emits (operation : {σ : Type} → Writer σ → σ → Except σ σ) (pieces : List String) :
    Prop where
  inOrder {σ : Type} (writer : Writer σ) (parts : String → List String) (state : σ) :
    operation (writer.inParts parts) state = writer.writeAll (pieces.flatMap parts) state
  tries {σ : Type} (writer : Writer σ) (parts : String → List String) (state final : σ)
    (wrote : operation (writer.inParts parts) state = .ok final) :
    operation (writer.recorded.inParts parts) (state, []) = .ok (final, pieces.flatMap parts)
  stops {σ : Type} (writer : Writer σ) (parts : String → List String) (state final : σ)
    (failed : operation (writer.inParts parts) state = .error final) :
    ∃ before part after reached, pieces.flatMap parts = before ++ part :: after ∧
      writer.writeAll before state = .ok reached ∧ writer.write reached part = .error final ∧
      operation (writer.recorded.inParts parts) (state, []) = .error (final, before ++ [part])

theorem Emits.of_writeAll {operation : {σ : Type} → Writer σ → σ → Except σ σ}
    {pieces : List String} (same : ∀ {σ : Type} (writer : Writer σ) (state : σ),
      operation writer state = writer.writeAll pieces state) : Emits operation pieces := by
  have inOrder {σ : Type} (writer : Writer σ) (parts : String → List String) (state : σ) :
      operation (writer.inParts parts) state = writer.writeAll (pieces.flatMap parts) state := by
    rw [same, writeAll_inParts]
  refine ⟨inOrder, ?_, ?_⟩
  · intro σ writer parts state final wrote
    rw [inOrder] at wrote ⊢
    exact writeAll_recorded wrote []
  · intro σ writer parts state final failed
    rw [inOrder] at failed
    obtain ⟨before, part, after, reached, split, wrote, stopped⟩ := writeAll_eq_error failed
    refine ⟨before, part, after, reached, split, wrote, stopped, ?_⟩
    have tried : writer.recorded.write (reached, before) part = .error (final, before ++ [part]) := by
      simp only [recorded, stopped]
    rw [inOrder, split, writeAll_append, writeAll_recorded wrote []]
    show writer.recorded.writeAll (part :: after) (reached, before) = _
    rw [writeAll_cons, tried]
    rfl

end EnumNames.Writer
