import EnumNames.Normal
import EnumNames.Tables

/-! The compiled name table of a type. -/
namespace EnumNames

/-- The runs of a type in ascending order and the stored names of their members. -/
structure Descriptor where
  typeName : String
  signedness : Signedness
  strategy : Strategy
  runs : List Run
  tables : Tables
deriving DecidableEq, Repr

namespace Descriptor

/-- The widest offsets in use. -/
def indexWidth (descriptor : Descriptor) : Width := descriptor.tables.width

/-- Compiles the constants of a type. They may come in any order and repeat values. -/
def compile (typeName : String) (records : List Record) : Traced Descriptor := do
  let signedness ← Traced.ofExcept (Record.commonSignedness typeName records)
  let members ← Record.normalize typeName records
  let runs ← Run.splitReported members
  let strategy := Strategy.select runs.length
  let tables ← Traced.ofExcept (Tables.build strategy runs)
  Traced.report [.compiled typeName strategy.name runs.length tables.width.bits]
  return { typeName, signedness, strategy, runs, tables }

/-- The name of a word, if a member has it as its value. -/
def lookup? (descriptor : Descriptor) (word : UInt64) : Option String :=
  descriptor.tables.lookup? descriptor.runs word

/-- The form of a value that has no name: the type's name and the number. -/
def fallback (descriptor : Descriptor) (word : UInt64) : String :=
  descriptor.typeName ++ "(" ++ descriptor.signedness.decimal word ++ ")"

/-- The name of a value, or the form for a value without one. -/
def render (descriptor : Descriptor) (word : UInt64) : String :=
  (descriptor.lookup? word).getD (descriptor.fallback word)

end Descriptor
end EnumNames
