import EnumNames.Toml.Key
import EnumNames.Toml.Value

/-! The tables of a document under construction. Every table has a number, the whole document has
the number 0, and an entry belongs to the table whose number it carries. -/
namespace EnumNames.Toml

/-- How a table came to be. -/
inductive Origin
  /-- By a header of its own. -/
  | header
  /-- On the way of a header to another table; a header of its own may follow. -/
  | implied
  /-- On the way of a key with points; no header may follow. -/
  | dotted
deriving DecidableEq, Repr

inductive Node
  | value (value : Value)
  | table (number : Nat) (origin : Origin)
  /-- An array of tables; the number is that of its last table. -/
  | rows (last : Nat)
deriving Repr

/-- What stands under a key of a table, and where it is written. -/
structure Entry where
  table : Nat
  key : Key
  extent : Extent
  node : Node
deriving Repr

/-- The entries in the order of their definition, and how many tables there are. -/
structure Assembly where
  entries : List Entry
  count : Nat
deriving Repr

namespace Assembly

/-- The document alone, without entries. -/
def empty : Assembly := ⟨[], 1⟩

/-- Whether an entry stands under a name in a table. -/
def isAt (table : Nat) (name : String) (entry : Entry) : Bool :=
  entry.table == table && entry.key.name == name

def find? (assembly : Assembly) (table : Nat) (name : String) : Option Entry :=
  assembly.entries.find? (isAt table name)

def add (assembly : Assembly) (entry : Entry) : Assembly :=
  { assembly with entries := assembly.entries ++ [entry] }

/-- Adds an entry for a new table. -/
def addTable (assembly : Assembly) (table : Nat) (key : Key) (extent : Extent)
    (node : Nat → Node) : Assembly :=
  { assembly.add ⟨table, key, extent, node assembly.count⟩ with count := assembly.count + 1 }

/-- Puts an entry in the place of the one under the same name. -/
def replace (assembly : Assembly) (entry : Entry) : Assembly :=
  let entries := assembly.entries.map fun old =>
    if isAt entry.table entry.key.name old then entry else old
  { assembly with entries }

/-- Goes from a table to the one under a key, on the way of a dotted key or of a header. A table
that is missing is made. A dotted key does not go into a table that has a header, and one that it
goes into cannot get a header any more. -/
def enter? (assembly : Assembly) (way : Origin) (table : Nat) (key : Key) :
    Option (Assembly × Nat × Origin) :=
  match assembly.find? table key.name with
  | none => some (assembly.addTable table key key.extent (.table · way), assembly.count, way)
  | some entry =>
    match entry.node with
    | .table number origin =>
      match way, origin with
      | .dotted, .header => none
      | .dotted, .implied =>
        some (assembly.replace { entry with node := .table number .dotted }, number, .dotted)
      | _, _ => some (assembly, number, origin)
    | .rows last => some (assembly, last, .header)
    | .value _ => none

/-- Follows keys one after the other. -/
def follow? (assembly : Assembly) (way : Origin) (table : Nat) (origin : Origin) (keys : List Key) :
    Option (Assembly × Nat × Origin) :=
  keys.foldlM (fun (assembly, table, _) key => assembly.enter? way table key) (assembly, table, origin)

/-- Puts a value under a path that starts in a table. The keys are new, and with more than one of
them, the table in front of the last is one that dotted keys have made. -/
def assign? (assembly : Assembly) (table : Nat) (path : Path) (extent : Extent) (value : Value) :
    Option Assembly := do
  let (assembly, target, origin) ← assembly.follow? .dotted table .dotted path.parents
  if origin = .dotted ∧ (assembly.find? target path.last.name).isNone then
    some (assembly.add ⟨target, path.last, extent, .value value⟩)
  else none

/-- Opens the table of a header and gives its number. -/
def openTable? (assembly : Assembly) (path : Path) (extent : Extent) : Option (Assembly × Nat) := do
  let (assembly, parent, _) ← assembly.follow? .implied 0 .header path.parents
  match assembly.find? parent path.last.name with
  | none => some (assembly.addTable parent path.last extent (.table · .header), assembly.count)
  | some ⟨_, _, _, .table number .implied⟩ =>
    some (assembly.replace ⟨parent, path.last, extent, .table number .header⟩, number)
  | some _ => none

/-- Opens a new table at the end of an array of tables and gives its number. -/
def openRow? (assembly : Assembly) (path : Path) (extent : Extent) : Option (Assembly × Nat) := do
  let (assembly, parent, _) ← assembly.follow? .implied 0 .header path.parents
  match assembly.find? parent path.last.name with
  | none => some (assembly.addTable parent path.last extent .rows, assembly.count)
  | some ⟨_, key, extent, .rows _⟩ =>
    some ({ assembly.replace ⟨parent, key, extent, .rows assembly.count⟩ with
      count := assembly.count + 1 }, assembly.count)
  | some _ => none

/-- The entries of the document itself. -/
def top (assembly : Assembly) : List Entry := assembly.entries.filter (·.table == 0)

end Assembly
end EnumNames.Toml
