import EnumNames.Toml.Document
import EnumNames.Toml.Grammar.Scalar
import EnumNames.Toml.Grammar.Text

/-! The grammar of TOML, last part: keys, values, statements, and the tables that statements make.
The main definition is `Document`, which says what stands under the keys of a document. -/
namespace EnumNames.Toml

/-! ### Keys -/

/-- A key of one part. -/
inductive SingleKey : Form String
  | bare {name rest : List Char} (nonempty : name ≠ []) (inside : name.all isBareKeyChar)
      (ends : ∀ c ∈ rest.head?, isBareKeyChar c = false) :
    SingleKey (name ++ rest) (.ofList name) rest
  | quoted {text rest : List Char} {name : String} (single : OneLine text name rest) :
    SingleKey text name rest

/-- Keys with points between them, and blanks around the points. -/
inductive Dotted : Form Path
  | last {text rest : List Char} {name : String} (key : SingleKey text name rest) :
    Dotted text ⟨[], ⟨name, ⟨text, rest⟩⟩⟩ rest
  | next {text behind atKey between rest : List Char} {name : String} {path : Path}
      (key : SingleKey text name between) (before : Blanks between ('.' :: behind))
      (after : Blanks behind atKey) (others : Dotted atKey path rest) :
    Dotted text ⟨⟨name, ⟨text, between⟩⟩ :: path.parents, path.last⟩ rest

/-- A path whose last key has at most so many in front of it. -/
structure Within (most : Nat) (text : List Char) (path : Path) (rest : List Char) : Prop where
  dotted : Dotted text path rest
  few : path.parents.length ≤ most

/-- A path, an equals sign and a value, with blanks around the sign. -/
inductive Assigns (most : Nat) (value : Form Value) : Form Assignment
  | mk {text behindPath behindSign atValue rest : List Char} {path : Path} {given : Value}
      (within : Within most text path behindPath) (before : Blanks behindPath ('=' :: behindSign))
      (after : Blanks behindSign atValue) (written : value atValue given rest) :
    Assigns most value text ⟨path, ⟨atValue, rest⟩, given⟩ rest

/-! ### Tables -/

namespace Assembly

/-- A header leads from a table to the one under a key. It makes a table that is missing, and of an
array of tables it takes the last. -/
inductive HeaderStep : Assembly → Nat → Key → Assembly → Nat → Prop
  | new {assembly : Assembly} {table : Nat} {key : Key}
      (missing : assembly.find? table key.name = none) :
    HeaderStep assembly table key (assembly.addTable table key key.extent (.table · .implied))
      assembly.count
  | table {assembly : Assembly} {table number : Nat} {key : Key} {entry : Entry} {origin : Origin}
      (found : assembly.find? table key.name = some entry) (node : entry.node = .table number origin) :
    HeaderStep assembly table key assembly number
  | rows {assembly : Assembly} {table last : Nat} {key : Key} {entry : Entry}
      (found : assembly.find? table key.name = some entry) (node : entry.node = .rows last) :
    HeaderStep assembly table key assembly last

/-- A key with a point behind it leads to a table that it makes or that such keys have made before,
or to one that so far was only on the way of headers, which then cannot get a header any more. -/
inductive PointStep : Assembly → Nat → Key → Assembly → Nat → Prop
  | new {assembly : Assembly} {table : Nat} {key : Key}
      (missing : assembly.find? table key.name = none) :
    PointStep assembly table key (assembly.addTable table key key.extent (.table · .dotted))
      assembly.count
  | dotted {assembly : Assembly} {table number : Nat} {key : Key} {entry : Entry}
      (found : assembly.find? table key.name = some entry)
      (node : entry.node = .table number .dotted) :
    PointStep assembly table key assembly number
  | implied {assembly : Assembly} {table number : Nat} {key : Key} {entry : Entry}
      (found : assembly.find? table key.name = some entry)
      (node : entry.node = .table number .implied) :
    PointStep assembly table key (assembly.replace { entry with node := .table number .dotted })
      number

/-- One step after the other. -/
inductive Follows (step : Assembly → Nat → Key → Assembly → Nat → Prop) :
    Assembly → Nat → List Key → Assembly → Nat → Prop
  | here {assembly : Assembly} {table : Nat} : Follows step assembly table [] assembly table
  | on {assembly between next : Assembly} {table middle target : Nat} {key : Key} {keys : List Key}
      (first : step assembly table key between middle)
      (others : Follows step between middle keys next target) :
    Follows step assembly table (key :: keys) next target

/-- A value gets a key that its table does not have yet. -/
inductive Assigned : Assembly → Nat → Assignment → Assembly → Prop
  | mk {assembly between : Assembly} {table target : Nat} {path : Path} {extent : Extent}
      {value : Value} (way : Follows PointStep assembly table path.parents between target)
      (new : between.find? target path.last.name = none) :
    Assigned assembly table ⟨path, extent, value⟩
      (between.add ⟨target, path.last, extent, .value value⟩)

/-- Values get their keys in one table, one after the other. -/
inductive Filled : Assembly → List Assignment → Prop
  | none {assembly : Assembly} : Filled assembly []
  | next {assembly next : Assembly} {assignment : Assignment} {others : List Assignment}
      (first : Assigned assembly 0 assignment next) (behind : Filled next others) :
    Filled assembly (assignment :: others)

end Assembly

/-- What a statement does to the tables and to the number of the table that is open. A table gets at
most one header, and none if keys with points have made it. -/
inductive Statement.Does : Statement → Assembly × Nat → Assembly × Nat → Prop
  | assign {assembly next : Assembly} {table : Nat} {assignment : Assignment}
      (assigned : assembly.Assigned table assignment next) :
    Does (.assign assignment) (assembly, table) (next, table)
  | newTable {assembly between : Assembly} {table parent : Nat} {path : Path} {extent : Extent}
      (way : assembly.Follows Assembly.HeaderStep 0 path.parents between parent)
      (new : between.find? parent path.last.name = none) :
    Does (.header path extent) (assembly, table)
      (between.addTable parent path.last extent (.table · .header), between.count)
  | table {assembly between : Assembly} {table parent number : Nat} {path : Path} {extent : Extent}
      {entry : Entry} (way : assembly.Follows Assembly.HeaderStep 0 path.parents between parent)
      (found : between.find? parent path.last.name = some entry)
      (node : entry.node = .table number .implied) :
    Does (.header path extent) (assembly, table)
      (between.replace ⟨parent, path.last, extent, .table number .header⟩, number)
  | newRows {assembly between : Assembly} {table parent : Nat} {path : Path} {extent : Extent}
      (way : assembly.Follows Assembly.HeaderStep 0 path.parents between parent)
      (new : between.find? parent path.last.name = none) :
    Does (.row path extent) (assembly, table)
      (between.addTable parent path.last extent .rows, between.count)
  | row {assembly between : Assembly} {table parent last : Nat} {path : Path} {extent : Extent}
      {entry : Entry} (way : assembly.Follows Assembly.HeaderStep 0 path.parents between parent)
      (found : between.find? parent path.last.name = some entry) (node : entry.node = .rows last) :
    Does (.row path extent) (assembly, table)
      ({ between.replace ⟨parent, entry.key, entry.extent, .rows between.count⟩ with
        count := between.count + 1 }, between.count)

/-- One statement after the other. -/
inductive Statement.Runs : List Statement → Assembly × Nat → Assembly × Nat → Prop
  | none {state : Assembly × Nat} : Runs [] state state
  | next {statement : Statement} {others : List Statement} {state between final : Assembly × Nat}
      (first : statement.Does state between) (behind : Runs others between final) :
    Runs (statement :: others) state final

/-! ### Values -/

/-- A string, a boolean, a number, a date or a time. -/
inductive Scalar : Form Value
  | string {text rest : List Char} {value : String} (quoted : Quoted text value rest) :
    Scalar text (.string value) rest
  | boolean {rest : List Char} (value : Bool) :
    Scalar ((toString value).toList ++ rest) (.boolean value) rest
  | integer {written rest : List Char} {whole : Whole} (number : IsInteger written whole) :
    Scalar (written ++ rest) (.integer whole) rest
  | floating {written rest : List Char} {value : Floating} (number : IsFloating written value) :
    Scalar (written ++ rest) (.floating value) rest
  | moment {written rest : List Char} (moment : IsMoment written) :
    Scalar (written ++ rest) (.moment (.ofList written)) rest

/-- Items with commas between them up to a closing bracket. A comma may stand behind the last one,
and around each item there may be space. -/
inductive Items {α : Type} (closing : Char) (item : Form α) : Form (List α)
  | none {text rest : List Char} (space : Space text (closing :: rest)) :
    Items closing item text [] rest
  | last {text atItem behind rest : List Char} {found : α} (before : Space text atItem)
      (first : item atItem found behind) (after : Space behind (closing :: rest)) :
    Items closing item text [found] rest
  | next {text atItem behind next rest : List Char} {found : α} {others : List α}
      (before : Space text atItem) (first : item atItem found behind)
      (after : Space behind (',' :: next)) (more : Items closing item next others rest) :
    Items closing item text (found :: others) rest

/-- A value whose parts have a form. -/
inductive Nested (most : Nat) (value : Form Value) : Form Value
  | scalar {text rest : List Char} {found : Value} (scalar : Scalar text found rest) :
    Nested most value text found rest
  | array {text rest : List Char} {elements : List Value}
      (items : Items ']' value text elements rest) :
    Nested most value ('[' :: text) (.array elements) rest
  | table {text rest : List Char} {assignments : List Assignment}
      (items : Items '\x7d' (Assigns most value) text assignments rest)
      (filled : Assembly.empty.Filled assignments) :
    Nested most value ('\x7b' :: text)
      (.table (assignments.map fun assignment => (assignment.path.names, assignment.value))) rest

/-- A value in which brackets open inside one another at most so often. -/
def Valued (most : Nat) : (nesting : Nat) → Form Value
  | 0 => Scalar
  | nesting + 1 => Nested most (Valued most nesting)

/-! ### Statements and documents -/

/-- A statement without what stands around it on its line. -/
inductive Stated (limits : Limits) : Form Statement
  | assign {text rest : List Char} {assignment : Assignment}
      (assigns : Assigns limits.parents (Valued limits.parents limits.nesting) text assignment rest) :
    Stated limits text (.assign assignment) rest
  | header {text atPath behindPath rest : List Char} {path : Path} (before : Blanks text atPath)
      (within : Within limits.parents atPath path behindPath)
      (after : Blanks behindPath (']' :: rest)) :
    Stated limits ('[' :: text) (.header path ⟨'[' :: text, rest⟩) rest
  | row {text atPath behindPath rest : List Char} {path : Path} (before : Blanks text atPath)
      (within : Within limits.parents atPath path behindPath)
      (after : Blanks behindPath (']' :: ']' :: rest)) :
    Stated limits ('[' :: '[' :: text) (.row path ⟨'[' :: '[' :: text, rest⟩) rest

/-- A line up to its end, with at most one statement. -/
inductive Line (limits : Limits) : Form (List Statement)
  | empty {text rest : List Char} (tail : Tail text rest) : Line limits text [] rest
  | statement {text start behind rest : List Char} {statement : Statement}
      (indent : Blanks text start) (stated : Stated limits start statement behind)
      (tail : Tail behind rest) : Line limits text [statement] rest

/-- Lines with line ends between them. -/
inductive Lines (limits : Limits) : List Char → List Statement → Prop
  | last {text : List Char} {statements : List Statement} (line : Line limits text statements []) :
    Lines limits text statements
  | more {text between rest : List Char} {statements behind : List Statement}
      (line : Line limits text statements between) (lineEnd : LineEnd between rest)
      (others : Lines limits rest behind) : Lines limits text (statements ++ behind)

/-- The keys of the document itself and what stands under them. -/
def Assembly.contents (assembly : Assembly) : List (String × Node) :=
  assembly.top.map fun entry => (entry.key.name, entry.node)

/-- A text is a document within limits, and this stands under its keys. A byte order mark at its
beginning means nothing. -/
inductive Document (limits : Limits) : List Char → List (String × Node) → Prop
  | mk {mark text : List Char} {statements : List Statement} {assembly : Assembly} {table : Nat}
      (marked : mark = [] ∨ mark = ['\ufeff']) (lines : Lines limits text statements)
      (run : Statement.Runs statements (.empty, 0) (assembly, table)) :
    Document limits (mark ++ text) assembly.contents

end EnumNames.Toml
