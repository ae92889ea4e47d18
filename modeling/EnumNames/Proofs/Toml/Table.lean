import EnumNames.Toml.Grammar.Document
import Mathlib.Data.List.Nodup

/-! The tables of a document. They have no key twice: every statement adds an entry only under a name
that its table does not have yet, or puts it in the place of the one that has it. And what the
grammar says that a statement does to them is what is done. -/
namespace EnumNames.Toml

/-- What each step keeps holds behind all of them. -/
theorem foldlM_keeps {σ α : Type} {step : σ → α → Option σ} (holds : σ → Prop)
    (keeps : ∀ {state input next}, holds state → step state input = some next → holds next)
    {inputs : List α} {state next : σ} (first : holds state)
    (run : inputs.foldlM step state = some next) : holds next := by
  induction inputs generalizing state with
  | nil =>
    cases run
    exact first
  | cons input inputs ih =>
    rw [List.foldlM_cons] at run
    obtain ⟨between, stepped, rest⟩ := Option.bind_eq_some_iff.mp run
    exact ih (keeps first stepped) rest

namespace Assembly

/-- No table has two entries under one name. -/
def Distinct (assembly : Assembly) : Prop :=
  (assembly.entries.map fun entry => (entry.table, entry.key.name)).Nodup

theorem isAt_iff {table : Nat} {name : String} {entry : Entry} :
    isAt table name entry ↔ entry.table = table ∧ entry.key.name = name := by
  simp [isAt]

theorem find?_eq_none_iff {assembly : Assembly} {table : Nat} {name : String} :
    assembly.find? table name = none ↔
      (table, name) ∉ assembly.entries.map fun entry => (entry.table, entry.key.name) := by
  simp [find?, isAt]

theorem distinct_empty : empty.Distinct := List.nodup_nil

section
variable {assembly next : Assembly} (distinct : assembly.Distinct)
include distinct

theorem Distinct.add (entry : Entry) (new : assembly.find? entry.table entry.key.name = none) :
    (assembly.add entry).Distinct := by
  rw [Distinct, Assembly.add, List.map_append, List.map_singleton, ← List.concat_eq_append]
  exact List.Nodup.concat (find?_eq_none_iff.mp new) distinct

theorem Distinct.addTable {table : Nat} {key : Key} {extent : Extent} {node : Nat → Node}
    (new : assembly.find? table key.name = none) :
    (assembly.addTable table key extent node).Distinct :=
  distinct.add ⟨table, key, extent, node assembly.count⟩ new

theorem Distinct.replace (entry : Entry) : (assembly.replace entry).Distinct := by
  have same : (assembly.replace entry).entries.map (fun entry => (entry.table, entry.key.name)) =
      assembly.entries.map fun entry => (entry.table, entry.key.name) := by
    rw [Assembly.replace, List.map_map]
    refine List.map_congr_left fun old _ => ?_
    rw [Function.comp_apply]
    split
    · rename_i found
      rw [(isAt_iff.mp found).1, (isAt_iff.mp found).2]
    · rfl
  rw [Distinct, same]
  exact distinct

theorem Distinct.enter {way origin : Origin} {table number : Nat} {key : Key}
    (entered : assembly.enter? way table key = some (next, number, origin)) : next.Distinct := by
  unfold enter? at entered
  split at entered
  · rename_i new
    cases entered
    exact distinct.addTable new
  · split at entered
    · split at entered
      · cases entered
      · cases entered
        exact distinct.replace _
      · cases entered
        exact distinct
    · cases entered
      exact distinct
    · cases entered

theorem Distinct.follow {way origin start : Origin} {table number : Nat} {keys : List Key}
    (followed : assembly.follow? way table start keys = some (next, number, origin)) :
    next.Distinct := by
  unfold follow? at followed
  exact foldlM_keeps (fun state => state.1.Distinct)
    (fun distinct entered => distinct.enter entered) distinct followed

theorem Distinct.assign {table : Nat} {path : Path} {extent : Extent} {value : Value}
    (assigned : assembly.assign? table path extent value = some next) : next.Distinct := by
  unfold assign? at assigned
  obtain ⟨⟨between, target, origin⟩, followed, last⟩ := Option.bind_eq_some_iff.mp assigned
  dsimp only at last
  split at last
  · rename_i allowed
    cases last
    exact (distinct.follow followed).add _ (Option.isNone_iff_eq_none.mp allowed.2)
  · cases last

theorem Distinct.openTable {path : Path} {extent : Extent} {number : Nat}
    (opened : assembly.openTable? path extent = some (next, number)) : next.Distinct := by
  unfold openTable? at opened
  obtain ⟨⟨between, parent, origin⟩, followed, last⟩ := Option.bind_eq_some_iff.mp opened
  have distinct := distinct.follow followed
  dsimp only at last
  split at last
  · rename_i new
    cases last
    exact distinct.addTable new
  · cases last
    exact distinct.replace _
  · cases last

theorem Distinct.openRow {path : Path} {extent : Extent} {number : Nat}
    (opened : assembly.openRow? path extent = some (next, number)) : next.Distinct := by
  unfold openRow? at opened
  obtain ⟨⟨between, parent, origin⟩, followed, last⟩ := Option.bind_eq_some_iff.mp opened
  have distinct := distinct.follow followed
  dsimp only at last
  split at last
  · rename_i new
    cases last
    exact distinct.addTable new
  · cases last
    exact distinct.replace _
  · cases last

end
end Assembly

/-- A statement leaves all keys distinct. -/
theorem Statement.perform?_distinct {statement : Statement} {state next : Assembly × Nat}
    (distinct : state.1.Distinct) (applied : statement.perform? state = some next) :
    next.1.Distinct := by
  cases statement with
  | assign assignment =>
    obtain ⟨assembly, assigned, rfl⟩ := Option.map_eq_some_iff.mp applied
    exact distinct.assign assigned
  | header path extent => exact distinct.openTable applied
  | row path extent => exact distinct.openRow applied

/-- In a document all keys of a table are distinct. -/
theorem document?_distinct {limits : Limits} {source : List Char} {assembly : Assembly}
    (read : document? limits source = some assembly) : assembly.Distinct := by
  unfold document? at read
  obtain ⟨statements, _, applied⟩ := Option.bind_eq_some_iff.mp read
  obtain ⟨⟨last, number⟩, applied, same⟩ := Option.bind_eq_some_iff.mp applied
  cases same
  exact foldlM_keeps (fun state => state.1.Distinct) Statement.perform?_distinct
    Assembly.distinct_empty applied

namespace Assembly

theorem top_sublist (assembly : Assembly) : assembly.top.Sublist assembly.entries :=
  List.filter_sublist

variable {assembly : Assembly} (distinct : assembly.Distinct)
include distinct

theorem Distinct.nodup_top : (assembly.top.map (·.key.name)).Nodup := by
  have part := List.pairwise_map.mp ((assembly.top_sublist.map _).nodup distinct)
  refine List.pairwise_map.mpr (part.imp_of_mem fun {left right} leftTop rightTop differ same => ?_)
  have leftTable : left.table = 0 := by simpa using (List.mem_filter.mp leftTop).2
  have rightTable : right.table = 0 := by simpa using (List.mem_filter.mp rightTop).2
  exact differ (Prod.ext (leftTable.trans rightTable.symm) same)

end Assembly

/-! ### What statements do -/

namespace Assembly

theorem HeaderStep.enter?_eq {assembly next : Assembly} {table target : Nat} {key : Key}
    (step : HeaderStep assembly table key next target) :
    ∃ origin, assembly.enter? .implied table key = some (next, target, origin) := by
  cases step with
  | new missing => exact ⟨.implied, by rw [enter?, missing]⟩
  | table found node => exact ⟨_, by simp only [enter?, found, node]; rfl⟩
  | rows found node => exact ⟨.header, by simp only [enter?, found, node]⟩

theorem PointStep.enter?_eq {assembly next : Assembly} {table target : Nat} {key : Key}
    (step : PointStep assembly table key next target) :
    assembly.enter? .dotted table key = some (next, target, .dotted) := by
  cases step with
  | new missing => rw [enter?, missing]
  | dotted found node => simp only [enter?, found, node]
  | implied found node => simp only [enter?, found, node]

theorem follow?_cons {assembly next : Assembly} {way start origin : Origin} {table target : Nat}
    {key : Key} (entered : assembly.enter? way table key = some (next, target, origin))
    (keys : List Key) : assembly.follow? way table start (key :: keys) =
      next.follow? way target origin keys := by
  rw [follow?, List.foldlM_cons]
  simp only [entered, Option.bind_eq_bind, Option.bind_some]
  rfl

theorem Follows.follow?_header {assembly next : Assembly} {table target : Nat} {keys : List Key}
    (way : Follows HeaderStep assembly table keys next target) (start : Origin) :
    ∃ origin, assembly.follow? .implied table start keys = some (next, target, origin) := by
  induction way generalizing start with
  | here => exact ⟨start, rfl⟩
  | on first _ ih =>
    obtain ⟨between, entered⟩ := first.enter?_eq
    obtain ⟨origin, followed⟩ := ih between
    exact ⟨origin, (follow?_cons entered _).trans followed⟩

theorem Follows.follow?_points {assembly next : Assembly} {table target : Nat} {keys : List Key}
    (way : Follows PointStep assembly table keys next target) :
    assembly.follow? .dotted table .dotted keys = some (next, target, .dotted) := by
  induction way with
  | here => rfl
  | on first _ ih => exact (follow?_cons first.enter?_eq _).trans ih

theorem Assigned.assign?_eq {assembly next : Assembly} {table : Nat} {assignment : Assignment}
    (assigned : Assigned assembly table assignment next) :
    assembly.assign? table assignment.path assignment.extent assignment.value = some next := by
  obtain ⟨way, new⟩ := assigned
  rw [assign?, way.follow?_points]
  exact if_pos ⟨rfl, by rw [new]; rfl⟩

theorem Filled.exists_foldlM {assembly : Assembly} {assignments : List Assignment}
    (filled : assembly.Filled assignments) :
    ∃ last, assignments.foldlM (fun (assembly : Assembly) assignment =>
      assembly.assign? 0 assignment.path assignment.extent assignment.value) assembly = some last := by
  induction filled with
  | none => exact ⟨_, rfl⟩
  | next first _ ih =>
    obtain ⟨last, others⟩ := ih
    exact ⟨last, by rw [List.foldlM_cons, first.assign?_eq]; exact others⟩

theorem Filled.inlineTable?_eq {assignments : List Assignment} (filled : empty.Filled assignments) :
    inlineTable? assignments =
      some (.table (assignments.map fun assignment => (assignment.path.names, assignment.value))) := by
  obtain ⟨last, done⟩ := filled.exists_foldlM
  rw [inlineTable?, done, Option.map_some]

end Assembly

theorem Statement.Does.perform?_eq {statement : Statement} {state next : Assembly × Nat}
    (does : statement.Does state next) : statement.perform? state = some next := by
  cases does with
  | assign assigned =>
    rw [perform?, assigned.assign?_eq]
    rfl
  | newTable way new =>
    obtain ⟨_, followed⟩ := way.follow?_header .header
    simp only [perform?, Assembly.openTable?, followed, Option.bind_eq_bind, Option.bind_some, new]
  | @table _ _ _ _ _ _ _ entry way found node =>
    obtain ⟨_, followed⟩ := way.follow?_header .header
    obtain ⟨_, _, _, _⟩ := entry
    obtain rfl := node
    simp only [perform?, Assembly.openTable?, followed, Option.bind_eq_bind, Option.bind_some, found]
  | newRows way new =>
    obtain ⟨_, followed⟩ := way.follow?_header .header
    simp only [perform?, Assembly.openRow?, followed, Option.bind_eq_bind, Option.bind_some, new]
  | @row _ _ _ _ _ _ _ entry way found node =>
    obtain ⟨_, followed⟩ := way.follow?_header .header
    obtain ⟨_, _, _, _⟩ := entry
    obtain rfl := node
    simp only [perform?, Assembly.openRow?, followed, Option.bind_eq_bind, Option.bind_some, found]

theorem Statement.Runs.foldlM_eq {statements : List Statement} {state final : Assembly × Nat}
    (runs : Statement.Runs statements state final) :
    statements.foldlM Statement.perform? state = some final := by
  induction runs with
  | none => rfl
  | next first _ ih =>
    rw [List.foldlM_cons, first.perform?_eq]
    exact ih

end EnumNames.Toml
