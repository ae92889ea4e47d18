import EnumNames.Go.File
import EnumNames.Proofs.Go.Literal
import EnumNames.Proofs.Writer

/-! Files as lists of lines. Writing piece by piece is writing one list of lines, and a text
determines its lines, since no line of a section breaks. -/
namespace EnumNames

theorem Sink.writeAll_unbounded (text : String) (pieces : List String) :
    Sink.writeAll ⟨text, none⟩ pieces = .ok ⟨text ++ String.join pieces, none⟩ := by
  induction pieces generalizing text with
  | nil =>
    rw [String.join_nil, String.append_empty]
    rfl
  | cons piece pieces ih =>
    have rest := ih (text ++ piece)
    rw [String.append_assoc] at rest
    rw [String.join_cons, writeAll, Writer.writeAll_cons]
    exact rest

namespace Go

/-- A text that stays on its line. -/
def IsLine (text : String) : Prop := '\n' ∉ text.toList

instance : DecidablePred IsLine := fun text => inferInstanceAs (Decidable ('\n' ∉ text.toList))

theorem isLine_append {left right : String} : IsLine (left ++ right) ↔ IsLine left ∧ IsLine right := by
  simp [IsLine]

theorem isLine_quoted (text : String) : IsLine (quoted text) := newline_notMem_quoted text

/-- The text of lines, each with its line end. -/
def lineText (lines : List String) : String := String.join (lines.map (· ++ "\n"))

theorem toList_lineText (lines : List String) :
    (lineText lines).toList = lines.flatMap fun line => line.toList ++ ['\n'] := by
  simp [lineText, List.flatMap_map]

theorem lineText_append (first second : List String) :
    lineText (first ++ second) = lineText first ++ lineText second := by
  simp [lineText, String.join_append]

theorem lineText_cons (line : String) (lines : List String) :
    lineText (line :: lines) = line ++ "\n" ++ lineText lines := by
  simp [lineText]

theorem lineText_of_mem {lines : List String} {line : String} (member : line ∈ lines) :
    ∃ before after, lineText lines = before ++ line ++ "\n" ++ after := by
  obtain ⟨before, after, rfl⟩ := List.append_of_mem member
  refine ⟨lineText before, lineText after, ?_⟩
  simp only [lineText_append, lineText_cons, String.append_assoc]

/-- A text determines its lines. -/
theorem lineText_inj {left right : List String} (allLeft : ∀ line ∈ left, IsLine line)
    (allRight : ∀ line ∈ right, IsLine line) (same : lineText left = lineText right) :
    left = right := by
  have characters := congrArg String.toList same
  rw [toList_lineText, toList_lineText] at characters
  clear same
  induction left generalizing right with
  | nil => cases right <;> simp_all
  | cons line left ih =>
    cases right with
    | nil => simp at characters
    | cons other right =>
      simp only [List.flatMap_cons, List.append_assoc, List.singleton_append] at characters
      have inside {line : String} (single : IsLine line) : ∀ c ∈ line.toList, c ≠ '\n' :=
        fun c member same => single (same ▸ member)
      obtain ⟨first, rest⟩ := append_inj_of_forall (inside (allLeft _ List.mem_cons_self))
        (inside (allRight _ List.mem_cons_self)) (by simp) (by simp) characters
      rw [String.toList_inj.mp first,
        ih (fun part member => allLeft part (List.mem_cons_of_mem _ member))
          (fun part member => allRight part (List.mem_cons_of_mem _ member))
          (List.cons.inj rest).2]

theorem layout_cons_cons (first second : Item) (rest : List Item) :
    layout (first :: second :: rest) = first.lines ++ "" :: layout (second :: rest) := by
  simp [layout]

theorem layout_singleton (item : Item) : layout [item] = item.lines := by
  simp [layout]

/-- The lines of the section of a type. -/
def sectionLines (descriptor : Descriptor) : List String :=
  layout ((section? descriptor).getD [])

/-- The lines of a file. -/
def fileLines (heading : Heading) (descriptors : List Descriptor) : List String :=
  layout heading.items ++ descriptors.flatMap fun descriptor => "" :: sectionLines descriptor

section
variable {σ : Type} (writer : Writer σ)

theorem emitLines_append (first second : List String) (state : σ) :
    emitLines writer (first ++ second) state =
      (emitLines writer first state).bind (emitLines writer second) := by
  rw [emitLines, List.map_append, Writer.writeAll_append]
  rfl

theorem emitSection_eq {descriptor : Descriptor} (written : (section? descriptor).isSome)
    (state : σ) :
    emitSection writer descriptor state = emitLines writer (sectionLines descriptor) state := by
  obtain ⟨items, found⟩ := Option.isSome_iff_exists.mp written
  simp [emitSection, sectionLines, found]

variable {writer}

/-- Writing lines for one thing after the other is writing all the lines. -/
theorem foldlM_emitLines {α : Type} {step : σ → α → Except σ σ} {lines : α → List String}
    {things : List α}
    (each : ∀ thing ∈ things, ∀ state, step state thing = emitLines writer (lines thing) state)
    (state : σ) : things.foldlM step state = emitLines writer (things.flatMap lines) state := by
  induction things generalizing state with
  | nil => rfl
  | cons thing things ih =>
    have rest := ih fun other member => each other (List.mem_cons_of_mem _ member)
    rw [List.foldlM_cons, List.flatMap_cons, emitLines_append, ← funext rest,
      each _ List.mem_cons_self]
    rfl

variable (writer)

theorem emitFile_eq {heading : Heading} {descriptors : List Descriptor}
    (written : ∀ descriptor ∈ descriptors, (section? descriptor).isSome) (state : σ) :
    emitFile writer heading descriptors state =
      emitLines writer (fileLines heading descriptors) state := by
  rw [emitFile, fileLines, emitLines_append]
  refine congrArg (Except.bind _) (funext fun state => foldlM_emitLines ?_ state)
  intro descriptor member state
  simp only [emitSection_eq writer (written descriptor member)]
  exact (emitLines_append writer [""] (sectionLines descriptor) state).symm

end

theorem writeLines_unbounded (lines : List String) :
    writeLines lines .unbounded = .ok ⟨lineText lines, none⟩ := by
  have whole := Sink.writeAll_unbounded "" (lines.map (· ++ "\n"))
  rwa [String.empty_append] at whole

theorem writeSection_unbounded {descriptor : Descriptor} {items : List Item}
    (found : section? descriptor = some items) :
    writeSection descriptor .unbounded = .ok ⟨lineText (layout items), none⟩ := by
  rw [writeSection, emitSection, found]
  exact writeLines_unbounded _

theorem writeSection_eq {descriptor : Descriptor} (written : (section? descriptor).isSome)
    (sink : Sink) : writeSection descriptor sink = writeLines (sectionLines descriptor) sink :=
  emitSection_eq Sink.writer written sink

theorem writeFile_eq {heading : Heading} {descriptors : List Descriptor}
    (written : ∀ descriptor ∈ descriptors, (section? descriptor).isSome) (sink : Sink) :
    writeFile heading descriptors sink = writeLines (fileLines heading descriptors) sink :=
  emitFile_eq Sink.writer written sink

end Go
end EnumNames
