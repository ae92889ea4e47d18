import EnumNames.NameTable
import EnumNames.SpanTable
import EnumNames.Strategy

/-! The stored names of a type in the layout that its strategy asks for. -/
namespace EnumNames

inductive Tables
  /-- One table for each run, in the order of the runs. -/
  | perRun (tables : List NameTable)
  /-- One table for all values. -/
  | sparse (table : SpanTable)
deriving DecidableEq, Repr

namespace Tables

def build (strategy : Strategy) (runs : List Run) : Except Error Tables :=
  match strategy with
  | .oneRun | .multiRun => .perRun <$> runs.mapM fun run => NameTable.build run.records
  | .sparseMap => .sparse <$> SpanTable.build runs

/-- The widest offsets in use. -/
def width : Tables → Width
  | .perRun tables => (tables.map NameTable.width).foldl Width.max .w8
  | .sparse table => table.width

/-- The name of a word. Runs are tried in order, and the first that contains the word decides. -/
def lookup? (runs : List Run) (tables : Tables) (word : UInt64) : Option String :=
  match tables with
  | .perRun tables => do
    let (table, index) ← (runs.zip tables).findSome? fun (run, table) =>
      (run.position? word).map (table, ·)
    table.name? index
  | .sparse table => table.name? word

end Tables
end EnumNames
