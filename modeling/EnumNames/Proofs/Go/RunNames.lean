import EnumNames.Proofs.Go.Layout
import EnumNames.Proofs.Go.Names
import Mathlib.Data.List.Nodup

/-! The names that several runs declare: one constant for each run, and one variable for each run
of more than one member. -/
namespace EnumNames.Go
variable {α : Type} {type : IntType} {runs : List Run} {tables : List NameTable}

/-- The runs that have offsets, with their tables and places. -/
def indexed (runs : List Run) (tables : List NameTable) : List ((Run × NameTable) × Nat) :=
  (runs.zip tables).zipIdx.filter fun part => !part.1.1.others.isEmpty

/-- The definition of a constant. -/
def blobDefinition (typeName : String) (part : NameTable × Nat) : String × Expr :=
  (numbered (blobName typeName) part.2, .string part.1.blob)

/-- The definition of a variable. -/
def offsetsDefinition (typeName : String) (part : (Run × NameTable) × Nat) : String × Expr :=
  (numbered (offsetsName typeName) part.2, offsetsArray part.1.2)

theorem blobs_eq (typeName : String) (tables : List NameTable) :
    blobs typeName tables 0 = tables.zipIdx.map (blobDefinition typeName) := rfl

theorem offsets_eq (typeName : String) (runs : List Run) (tables : List NameTable) :
    offsets typeName runs tables 0 = (indexed runs tables).map (offsetsDefinition typeName) := by
  rw [offsets, indexed, ← List.filterMap_eq_map, List.filterMap_filter]
  apply List.filterMap_congr
  intro part member
  cases single : part.1.1.others.isEmpty <;> simp [single, offsetsDefinition]

theorem mem_indexed {place : Nat} {run : Run} {table : NameTable} (hasRun : runs[place]? = some run)
    (hasTable : tables[place]? = some table) (several : run.others.isEmpty = false) :
    ((run, table), place) ∈ indexed runs tables := by
  rw [indexed, List.mem_filter, List.mem_zipIdx_iff_getElem?]
  exact ⟨List.getElem?_zip_eq_some.mpr ⟨hasRun, hasTable⟩, by simp [several]⟩

theorem nodup_places {β : Type} {parts : List (β × Nat)} {whole : List β}
    (part : parts.Sublist whole.zipIdx) : (parts.map Prod.snd).Nodup := by
  refine (List.Sublist.map _ part).nodup ?_
  rw [List.zipIdx_map_snd]
  exact List.nodup_range'

theorem nodup_numbered {β : Type} {parts : List (β × Nat)} {whole : List β} (name : String)
    (part : parts.Sublist whole.zipIdx) : (parts.map fun part => numbered name part.2).Nodup := by
  have named := List.Nodup.map (numbered_injective name) (nodup_places part)
  rwa [List.map_map] at named

/-- The constants of the runs, with what is known of their texts. -/
def blobEntities (typeName : String) (tables : List NameTable) (text : String → α) :
    List (String × Entity α) :=
  tables.zipIdx.map fun part => (numbered (blobName typeName) part.2, .data (text part.1.blob))

/-- The variables of the runs, with what is known of their offsets. -/
def offsetsEntities (typeName : String) (runs : List Run) (tables : List NameTable)
    (array : NameTable → α) : List (String × Entity α) :=
  (indexed runs tables).map fun part =>
    (numbered (offsetsName typeName) part.2, .data (array part.1.2))

/-- The scope behind the constants and the variables of the runs. -/
def runScope (type : IntType) (runs : List Run) (tables : List NameTable) (text : String → α)
    (array : NameTable → α) : Scope α :=
  ((fileScope type).declareAll (blobEntities type.name tables text)).declareAll
    (offsetsEntities type.name runs tables array)

section Scopes
variable (text : String → α) (array : NameTable → α)

theorem isMade_blobEntities (typeName : String) (tables : List NameTable) :
    ∀ definition ∈ blobEntities typeName tables text, IsMade typeName definition.1 := by
  intro definition member
  obtain ⟨part, _, rfl⟩ := List.mem_map.mp member
  exact (isMade_blobName typeName).numbered part.2

theorem isMade_offsetsEntities (typeName : String) (runs : List Run) (tables : List NameTable) :
    ∀ definition ∈ offsetsEntities typeName runs tables array, IsMade typeName definition.1 := by
  intro definition member
  obtain ⟨part, _, rfl⟩ := List.mem_map.mp member
  exact (isMade_offsetsName typeName).numbered part.2

theorem nodup_blobEntities (typeName : String) (tables : List NameTable) :
    ((blobEntities typeName tables text).map Prod.fst).Nodup := by
  rw [blobEntities, List.map_map]
  exact nodup_numbered _ (List.Sublist.refl _)

theorem nodup_offsetsEntities (typeName : String) (runs : List Run) (tables : List NameTable) :
    ((offsetsEntities typeName runs tables array).map Prod.fst).Nodup := by
  rw [offsetsEntities, List.map_map]
  exact nodup_numbered _ List.filter_sublist

theorem knows_runScope (free : type.name ∉ reserved) :
    (runScope type runs tables text array).Knows type :=
  ((knows_fileScope free).declareAll (isMade_blobEntities text _ _)).declareAll
    (isMade_offsetsEntities array _ _ _)

/-- A name of offsets is no name of a constant. -/
theorem blobEntities_numbered (place : Nat) :
    ((fileScope type).declareAll (blobEntities type.name tables text))
      (numbered (offsetsName type.name) place) = none := by
  rw [Scope.declareAll_of_notMem]
  · exact fileScope_isMade ((isMade_offsetsName _).numbered place)
  · intro member
    obtain ⟨definition, among, same⟩ := List.mem_map.mp member
    obtain ⟨part, _, rfl⟩ := List.mem_map.mp among
    exact numbered_blobName_ne _ _ _ same

theorem runScope_blob {place : Nat} {table : NameTable} (found : tables[place]? = some table) :
    runScope type runs tables text array (numbered (blobName type.name) place) =
      some (.data (text table.blob)) := by
  rw [runScope, Scope.declareAll_of_notMem]
  · refine Scope.declareAll_of_mem (nodup_blobEntities text _ _) (List.mem_map.mpr ?_)
    exact ⟨(table, place), List.mem_zipIdx_iff_getElem?.mpr found, rfl⟩
  · intro member
    obtain ⟨definition, among, same⟩ := List.mem_map.mp member
    obtain ⟨part, _, rfl⟩ := List.mem_map.mp among
    exact numbered_blobName_ne _ _ _ same.symm

theorem runScope_offsets {place : Nat} {run : Run} {table : NameTable}
    (hasRun : runs[place]? = some run) (hasTable : tables[place]? = some table)
    (several : run.others.isEmpty = false) :
    runScope type runs tables text array (numbered (offsetsName type.name) place) =
      some (.data (array table)) := by
  refine Scope.declareAll_of_mem (nodup_offsetsEntities array _ _ _) (List.mem_map.mpr ?_)
  exact ⟨((run, table), place), mem_indexed hasRun hasTable several, rfl⟩

end Scopes
end EnumNames.Go
