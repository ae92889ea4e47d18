import EnumNames.Proofs.Go.Lines
import EnumNames.Proofs.Go.Section
import EnumNames.Proofs.Sink

/-! Writing Go text to a place of limited size. Whatever is written for compiled descriptors is one
sequence of lines, so a place that is too small holds a beginning of the text that a larger one
would get, and nothing in the middle is left out. -/
namespace EnumNames.Go

/-- The lines of the guard and the section of a type, with an empty line in front of each. -/
def guardedLines (entry : Descriptor × List Declaration) : List String :=
  "" :: (layout [.guard (Declaration.numbers entry.2)] ++ "" :: sectionLines entry.1)

/-- The lines of a file with guards. -/
def guardedFileLines (heading : Heading) (types : List (Descriptor × List Declaration)) :
    List String :=
  layout heading.items ++ types.flatMap guardedLines

section
variable {σ : Type} (writer : Writer σ)

theorem emitLines_guardedLines {entry : Descriptor × List Declaration}
    (written : (section? entry.1).isSome) (state : σ) :
    emitLines writer (guardedLines entry) state = (do
      let state ← emitLines writer [""] state
      let state ← emitGuard writer entry.2 state
      let state ← emitLines writer [""] state
      emitSection writer entry.1 state) := by
  have last (state : σ) : emitLines writer ("" :: sectionLines entry.1) state =
      (emitLines writer [""] state).bind (emitSection writer entry.1) := by
    rw [funext (emitSection_eq writer written)]
    exact emitLines_append writer [""] _ state
  have behind (state : σ) : emitLines writer
      (layout [.guard (Declaration.numbers entry.2)] ++ "" :: sectionLines entry.1) state =
      (emitGuard writer entry.2 state).bind fun state =>
        (emitLines writer [""] state).bind (emitSection writer entry.1) := by
    rw [emitLines_append, funext last]
    rfl
  have whole := emitLines_append writer [""]
    (layout [.guard (Declaration.numbers entry.2)] ++ "" :: sectionLines entry.1) state
  rwa [funext behind] at whole

theorem emitGuardedFile_eq {heading : Heading} {types : List (Descriptor × List Declaration)}
    (written : ∀ entry ∈ types, (section? entry.1).isSome) (state : σ) :
    emitGuardedFile writer heading types state =
      emitLines writer (guardedFileLines heading types) state := by
  rw [emitGuardedFile, guardedFileLines, emitLines_append]
  refine congrArg (Except.bind _) (funext fun state => foldlM_emitLines ?_ state)
  exact fun entry member state => (emitLines_guardedLines writer (written entry member) state).symm

end

theorem writeGuardedFile_eq {heading : Heading} {types : List (Descriptor × List Declaration)}
    (written : ∀ entry ∈ types, (section? entry.1).isSome) (sink : Sink) :
    writeGuardedFile heading types sink = writeLines (guardedFileLines heading types) sink :=
  emitGuardedFile_eq Sink.writer written sink

/-- The pieces in which lines are written. -/
def pieces (lines : List String) : List String := lines.map (· ++ "\n")

/-- For compiled descriptors with any declarations, each of the four ways to write Go text writes its
lines to any writer, one after the other, and a writer that takes a line in parts gets none behind
the first part that fails. -/
theorem emits_of_written (heading : Heading) {types : List (Descriptor × List Declaration)}
    (written : ∀ entry ∈ types, (section? entry.1).isSome) :
    (∀ entry ∈ types, Writer.Emits (fun writer => emitSection writer entry.1)
        (pieces (sectionLines entry.1))) ∧
      (∀ declarations, Writer.Emits (fun writer => emitGuard writer declarations)
        (pieces (layout [.guard (Declaration.numbers declarations)]))) ∧
      Writer.Emits (fun writer => emitFile writer heading (types.map Prod.fst))
        (pieces (fileLines heading (types.map Prod.fst))) ∧
      Writer.Emits (fun writer => emitGuardedFile writer heading types)
        (pieces (guardedFileLines heading types)) := by
  refine ⟨fun entry member => ?_, fun declarations => ?_, ?_, ?_⟩
  · exact .of_writeAll fun writer => emitSection_eq writer (written entry member)
  · exact .of_writeAll fun writer _ => rfl
  · exact .of_writeAll fun writer => emitFile_eq writer (List.forall_mem_map.mpr written)
  · exact .of_writeAll fun writer => emitGuardedFile_eq writer written

end EnumNames.Go
