import EnumNames.Go.Section
import EnumNames.Go.File

/-! The lines of a section in each of its three shapes, with what varies named by itself. -/
namespace EnumNames.Go

/-- The constants of runs that are counted from a place on. -/
def blobs (typeName : String) (tables : List NameTable) (place : Nat) : List (String × Expr) :=
  (tables.zipIdx place).map fun (table, place) =>
    (numbered (blobName typeName) place, .string table.blob)

/-- The variables of runs that are counted from a place on. -/
def offsets (typeName : String) (runs : List Run) (tables : List NameTable) (place : Nat) :
    List (String × Expr) :=
  ((runs.zip tables).zipIdx place).filterMap fun ((run, table), place) =>
    if run.others.isEmpty then none
    else some (numbered (offsetsName typeName) place, offsetsArray table)

/-- The lines of the cases of runs that are counted from a place on. -/
def armLines (descriptor : Descriptor) (runs : List Run) (place : Nat) : List String :=
  (runs.zipIdx place).flatMap fun (run, place) => (arm descriptor run place).lines.map indent

/-- The line of a definition in a group. -/
def definitionLine (definition : String × Expr) : String :=
  indent (definition.1 ++ " = " ++ definition.2.text)

theorem group_eq (keyword : String) (definitions : List (String × Expr)) :
    group keyword definitions =
      (keyword ++ " (") :: (definitions.map definitionLine ++ [")"]) := rfl

/-- The cases of the runs of a descriptor. -/
def arms (descriptor : Descriptor) : List Arm :=
  descriptor.runs.zipIdx.map fun (run, place) => arm descriptor run place

theorem multiRun_eq (descriptor : Descriptor) (tables : List NameTable) :
    multiRun descriptor tables =
      [.consts (blobs descriptor.typeName tables 0)] ++
        (if (offsets descriptor.typeName descriptor.runs tables 0).isEmpty then []
          else [.vars (offsets descriptor.typeName descriptor.runs tables 0)]) ++
        [.stringMethod descriptor.typeName
          [.switch (arms descriptor) (fallback descriptor receiver)]] := rfl

theorem mem_blobs {typeName : String} {tables : List NameTable} {place : Nat}
    {definition : String × Expr} (member : definition ∈ blobs typeName tables place) :
    ∃ (table : NameTable) (place : Nat),
      definition = (numbered (blobName typeName) place, .string table.blob) := by
  obtain ⟨⟨table, place⟩, _, rfl⟩ := List.mem_map.mp member
  exact ⟨table, place, rfl⟩

theorem mem_offsets {typeName : String} {runs : List Run} {tables : List NameTable} {place : Nat}
    {definition : String × Expr} (member : definition ∈ offsets typeName runs tables place) :
    ∃ table place, definition = (numbered (offsetsName typeName) place, offsetsArray table) := by
  obtain ⟨⟨⟨run, table⟩, place⟩, _, kept⟩ := List.mem_filterMap.mp member
  dsimp only at kept
  split at kept
  · cases kept
  · cases kept
    exact ⟨table, place, rfl⟩

/-- What holds of the three parts holds of all items. -/
theorem forall_mem_multiRun {property : Item → Prop} {descriptor : Descriptor}
    {tables : List NameTable} (constants : property (.consts (blobs descriptor.typeName tables 0)))
    (arrays : property (.vars (offsets descriptor.typeName descriptor.runs tables 0)))
    (method : property (.stringMethod descriptor.typeName
      [.switch (arms descriptor) (fallback descriptor receiver)])) :
    ∀ item ∈ multiRun descriptor tables, property item := by
  intro item member
  simp only [multiRun_eq, List.mem_append, List.mem_singleton] at member
  rcases member with (rfl | middle) | rfl
  · exact constants
  · split at middle
    · cases middle
    · rw [List.mem_singleton.mp middle]
      exact arrays
  · exact method

theorem layout_multiRun (descriptor : Descriptor) (tables : List NameTable) :
    layout (multiRun descriptor tables) =
      group "const" (blobs descriptor.typeName tables 0) ++ "" ::
        ((if (offsets descriptor.typeName descriptor.runs tables 0).isEmpty then [] else
          group "var" (offsets descriptor.typeName descriptor.runs tables 0) ++ [""]) ++
        ("func (i " ++ descriptor.typeName ++ ") String() string \x7b") :: indent "switch \x7b" ::
          (armLines descriptor descriptor.runs 0 ++ indent "default:" ::
            [indent (indent ("return " ++ (fallback descriptor receiver).text)), indent "\x7d",
              "\x7d"])) := by
  have arms : ((descriptor.runs.zipIdx.map fun (run, place) => arm descriptor run place).flatMap
      Arm.lines).map indent = armLines descriptor descriptor.runs 0 := by
    simp [armLines, List.flatMap_map, List.map_flatMap]
  rw [multiRun]
  split
  · rename_i none
    rw [offsets, if_pos none, ← arms]
    simp [layout, Item.lines, blobs, Stmt.lines]
  · rename_i some
    rw [offsets, if_neg some, ← arms]
    simp [layout, Item.lines, blobs, Stmt.lines]

theorem armLines_cons (descriptor : Descriptor) (run : Run) (runs : List Run) (place : Nat) :
    armLines descriptor (run :: runs) place =
      indent ("case " ++ (arm descriptor run place).condition.text ++ ":") ::
        ((arm descriptor run place).body.map (indent <| indent ·.text) ++
          armLines descriptor runs (place + 1)) := by
  simp [armLines, Arm.lines]

/-- The entries of members that have a span. -/
def entries (descriptor : Descriptor) (members : List Record) (table : SpanTable) :
    List (Int × Expr) :=
  members.filterMap fun record => (table.span? record.value).map fun span =>
    (descriptor.signedness.read record.value, .slice (.name (blobName descriptor.typeName))
      (.int span.start.toNat) (.int span.stop.toNat))

theorem entries_cons {descriptor : Descriptor} {table : SpanTable} {record : Record} {span : Span}
    (members : List Record) (found : table.span? record.value = some span) :
    entries descriptor (record :: members) table =
      (descriptor.signedness.read record.value, .slice (.name (blobName descriptor.typeName))
        (.int span.start.toNat) (.int span.stop.toNat)) :: entries descriptor members table := by
  simp only [entries, List.filterMap_cons, found, Option.map_some]

theorem mem_entries {descriptor : Descriptor} {members : List Record} {table : SpanTable}
    {entry : Int × Expr} (member : entry ∈ entries descriptor members table) :
    ∃ record ∈ members, ∃ span, table.span? record.value = some span ∧
      entry = (descriptor.signedness.read record.value,
        .slice (.name (blobName descriptor.typeName)) (.int span.start.toNat)
          (.int span.stop.toNat)) := by
  obtain ⟨record, among, kept⟩ := List.mem_filterMap.mp member
  obtain ⟨span, found, rfl⟩ := Option.map_eq_some_iff.mp kept
  exact ⟨record, among, span, found, rfl⟩

theorem sparseMap_eq (descriptor : Descriptor) (table : SpanTable) :
    sparseMap descriptor table =
      [.const (blobName descriptor.typeName) (.string table.blob),
        .mapVar (mapName descriptor.typeName) descriptor.typeName
          (entries descriptor (descriptor.runs.flatMap Run.records) table),
        .stringMethod descriptor.typeName [.ifFound (mapName descriptor.typeName) "i",
          .simple (.ret (fallback descriptor receiver))]] := rfl

/-- The line of an entry of a map. -/
def entryLine (entry : Int × Expr) : String :=
  indent (toString entry.1 ++ ": " ++ entry.2.text ++ ",")

theorem layout_sparseMap (descriptor : Descriptor) (table : SpanTable) :
    layout (sparseMap descriptor table) =
      ("const " ++ blobName descriptor.typeName ++ " = " ++ quoted table.blob) :: "" ::
        ("var " ++ mapName descriptor.typeName ++ " = map[" ++ descriptor.typeName ++
          "]string\x7b") ::
        ((entries descriptor (descriptor.runs.flatMap Run.records) table).map entryLine ++
          "\x7d" :: "" :: ("func (i " ++ descriptor.typeName ++ ") String() string \x7b") ::
            indent ("if str, ok := " ++ mapName descriptor.typeName ++ "[" ++ "i" ++ "]; ok \x7b") ::
            indent (indent "return str") :: indent "\x7d" ::
            [indent ("return " ++ (fallback descriptor receiver).text), "\x7d"]) := by
  rw [sparseMap_eq]
  simp [layout, Item.lines, Stmt.lines, Simple.text, Expr.text, entryLine]

/-- The number of members, from the length of the offsets. -/
def memberCount (typeName offsets : String) : Expr :=
  .apply typeName (.tight .sub (.apply "len" (.name offsets)) (.int 1))

/-- Whether the receiver is no place. -/
def outside (descriptor : Descriptor) : Expr :=
  let beyond : Expr := .wide .atLeast receiver
    (memberCount descriptor.typeName (offsetsName descriptor.typeName))
  match descriptor.signedness with
  | .signed => .wide .or (.wide .less receiver (.int 0)) beyond
  | .unsigned => beyond

/-- The value that the receiver had in front of its shift. -/
def unshifted (descriptor : Descriptor) (run : Run) : Expr :=
  if run.min = 0 then receiver
  else .wide .add receiver (.int (descriptor.signedness.read run.min))

theorem oneRun_eq (descriptor : Descriptor) (run : Run) (table : NameTable) :
    oneRun descriptor run table =
      [.const (blobName descriptor.typeName) (.string table.blob),
        .var (offsetsName descriptor.typeName) (offsetsArray table),
        .stringMethod descriptor.typeName ((shift descriptor run).map .simple ++
          [.ifReturn (outside descriptor) (fallback descriptor (unshifted descriptor run)),
            .simple (.ret (nameAtReceiver (blobName descriptor.typeName)
              (offsetsName descriptor.typeName)))])] := rfl

theorem layout_oneRun (descriptor : Descriptor) (run : Run) (table : NameTable) :
    ∃ condition value, layout (oneRun descriptor run table) =
      ("const " ++ blobName descriptor.typeName ++ " = " ++ quoted table.blob) :: "" ::
        ("var " ++ offsetsName descriptor.typeName ++ " = " ++ (offsetsArray table).text) :: "" ::
        ("func (i " ++ descriptor.typeName ++ ") String() string \x7b") ::
        ((shift descriptor run).map (indent ·.text) ++ indent ("if " ++ condition ++ " \x7b") ::
          indent (indent ("return " ++ (fallback descriptor value).text)) :: indent "\x7d" ::
          [indent ("return " ++ (nameAtReceiver (blobName descriptor.typeName)
            (offsetsName descriptor.typeName)).text), "\x7d"]) := by
  have shifted : (((shift descriptor run).map Stmt.simple).flatMap Stmt.lines).map indent =
      (shift descriptor run).map (indent ·.text) := by
    unfold shift
    split <;> rfl
  refine ⟨(outside descriptor).text, unshifted descriptor run, ?_⟩
  rw [oneRun_eq]
  simp only [layout, List.map_cons, Item.lines, List.flatMap_append, List.map_append, shifted]
  simp [Stmt.lines, Simple.text, Expr.text]

/-- The shape of a section, told by its first line and by how its third line ends. -/
def shape (lines : List String) : Strategy :=
  if lines.head? = some "const (" then .multiRun
  else if lines[2]?.bind (·.toList.getLast?) = some '\x7b' then .sparseMap
  else .oneRun

theorem const_ne_group (typeName value : String) :
    "const " ++ blobName typeName ++ " = " ++ value ≠ "const (" := by
  intro same
  simpa [blobName] using congrArg String.toList same

theorem shape_oneRun (descriptor : Descriptor) (run : Run) (table : NameTable) (rest : List String) :
    shape (layout (oneRun descriptor run table) ++ rest) = .oneRun := by
  obtain ⟨condition, value, lines⟩ := layout_oneRun descriptor run table
  have ends (start : String) : (start ++ "\x7d").toList.getLast? = some '\x7d' := by simp
  simp only [lines, shape, List.cons_append, List.head?_cons, Option.some.injEq, const_ne_group,
    if_false, List.getElem?_cons_succ, List.getElem?_cons_zero, Option.bind_some, offsetsArray,
    Expr.text, ← String.append_assoc, ends]
  rfl

theorem shape_multiRun (descriptor : Descriptor) (tables : List NameTable) (rest : List String) :
    shape (layout (multiRun descriptor tables) ++ rest) = .multiRun := by
  rw [layout_multiRun]
  exact if_pos rfl

theorem shape_sparseMap (descriptor : Descriptor) (table : SpanTable) (rest : List String) :
    shape (layout (sparseMap descriptor table) ++ rest) = .sparseMap := by
  have ends (start : String) : (start ++ "]string\x7b").toList.getLast? = some '\x7b' := by simp
  simp only [layout_sparseMap, shape, List.cons_append, List.head?_cons, Option.some.injEq,
    const_ne_group, if_false, List.getElem?_cons_succ, List.getElem?_cons_zero, Option.bind_some,
    ends, if_true]

end EnumNames.Go
