import EnumNames.Declaration
import EnumNames.Go.Section
import EnumNames.Sink

/-! Go files with name tables. All text goes to a writer line by line, so a sink that fills up
holds a beginning of the file. -/
namespace EnumNames.Go

/-- What a file says about itself: its package, and the command that made it if it is known. -/
structure Heading where
  packageName : String
  command : Option String
deriving DecidableEq, Repr

namespace Heading

/-- The heading with the command in place of any that is there. -/
def withCommand (heading : Heading) (command : String) : Heading :=
  { heading with command := some command }

/-- The version of the generator that a file names. -/
def version : String := "0.1.0"

/-- The head of a file. Every section needs the import for values without a name. -/
def items (heading : Heading) : List Item :=
  let executed := heading.command.toList.map fun command => "Exec: " ++ quoted command
  [.comments (["Code generated by \"stringer-rs\"; DO NOT EDIT."] ++ executed ++
      ["Version: " ++ version]),
    .packageClause heading.packageName, .importClause "strconv"]

end Heading

section
variable (writer : Writer σ)

/-- Writes lines, each with its line end. -/
def emitLines (lines : List String) (state : σ) : Except σ σ :=
  writer.writeAll (lines.map (· ++ "\n")) state

/-- Writes the section of a type; writes nothing and fails if it has none. -/
def emitSection (descriptor : Descriptor) (state : σ) : Except σ σ :=
  match section? descriptor with
  | some items => emitLines writer (layout items) state
  | none => .error state

/-- Writes the function that stops compiling when a constant changes its number. -/
def emitGuard (declarations : List Declaration) (state : σ) : Except σ σ :=
  emitLines writer (layout [.guard (Declaration.numbers declarations)]) state

/-- Writes a file with the section of each type, an empty line in front of each. -/
def emitFile (heading : Heading) (descriptors : List Descriptor) (state : σ) : Except σ σ := do
  let state ← emitLines writer (layout heading.items) state
  descriptors.foldlM (fun state descriptor => do
    let state ← emitLines writer [""] state
    emitSection writer descriptor state) state

/-- Writes a file with the guard and the section of each type, an empty line in front of each. -/
def emitGuardedFile (heading : Heading) (types : List (Descriptor × List Declaration))
    (state : σ) : Except σ σ := do
  let state ← emitLines writer (layout heading.items) state
  types.foldlM (fun state (descriptor, declarations) => do
    let state ← emitLines writer [""] state
    let state ← emitGuard writer declarations state
    let state ← emitLines writer [""] state
    emitSection writer descriptor state) state

end

/-! ### Writing to sinks -/

def writeLines : (lines : List String) → Sink → Except Sink Sink := emitLines Sink.writer

def writeSection : (descriptor : Descriptor) → Sink → Except Sink Sink := emitSection Sink.writer

def writeGuard : (declarations : List Declaration) → Sink → Except Sink Sink :=
  emitGuard Sink.writer

def writeFile : (heading : Heading) → (descriptors : List Descriptor) → Sink → Except Sink Sink :=
  emitFile Sink.writer

def writeGuardedFile : (heading : Heading) → (types : List (Descriptor × List Declaration)) →
    Sink → Except Sink Sink :=
  emitGuardedFile Sink.writer

end EnumNames.Go
