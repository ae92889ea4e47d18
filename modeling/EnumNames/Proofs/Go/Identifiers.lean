import EnumNames.Proofs.Go.Label
import EnumNames.Proofs.Go.Lines
import EnumNames.Proofs.Go.NormalForm
import EnumNames.Proofs.Go.RunNames
import EnumNames.Proofs.Go.SectionReading

/-! The identifiers of a file. No name is declared twice, in one section or in two, and a method
reads no constant or variable but those of its own section. -/
namespace EnumNames.Go

/-- An identifier in a method. -/
inductive Mention
  /-- A constant or a variable. -/
  | operand (name : String)
  /-- A function or a type, which is applied to something. -/
  | function (name : String)
deriving DecidableEq, Repr

def Expr.mentions : Expr → List Mention
  | .name identifier => [.operand identifier]
  | .int _ | .string _ | .verbatim _ => []
  | .array bits _ => [.function ("uint" ++ toString bits)]
  | .wide _ left right | .tight _ left right => left.mentions ++ right.mentions
  | .apply function argument | .applyWith function argument _ =>
    .function function :: argument.mentions
  | .index operand place => operand.mentions ++ place.mentions
  | .slice operand start stop => operand.mentions ++ start.mentions ++ stop.mentions

def Simple.mentions : Simple → List Mention
  | .decrease identifier _ => [.operand identifier]
  | .ret value => value.mentions

def Arm.mentions (arm : Arm) : List Mention :=
  arm.condition.mentions ++ arm.body.flatMap Simple.mentions

def Stmt.mentions : Stmt → List Mention
  | .simple statement => statement.mentions
  | .ifReturn condition value => condition.mentions ++ value.mentions
  | .ifFound map key => [.operand map, .operand key]
  | .switch arms otherwise => arms.flatMap Arm.mentions ++ otherwise.mentions

/-- The constants and variables that an item declares in its package. -/
def Item.declaredNames : Item → List String
  | .const name _ | .var name _ | .mapVar name _ _ => [name]
  | .consts definitions | .vars definitions => definitions.map Prod.fst
  | _ => []

/-- The type that an item gives the method `String`, and the body of the method. -/
def Item.method? : Item → Option (String × List Stmt)
  | .stringMethod typeName body => some (typeName, body)
  | _ => none

/-- Whether an identifier means the receiver, one of the names that are declared, or, where it is
applied, the type itself or what every file has. -/
def Mention.Resolved (typeName : String) (declared : List String) : Mention → Prop
  | .operand name => name = "i" ∨ name ∈ declared
  | .function name => name = typeName ∨
    name ∈ ["len", "int64", "uint64", "strconv.FormatInt", "strconv.FormatUint"]

/-- The items give a type one method, and the method names no constant or variable that the items do
not declare. -/
def HasMethod (typeName : String) (items : List Item) : Prop :=
  ∃ body, items.filterMap Item.method? = [(typeName, body)] ∧
    ∀ mention ∈ body.flatMap Stmt.mentions,
      mention.Resolved typeName (items.flatMap Item.declaredNames)

section Normal

@[simp] theorem Expr.mentions_normal (e : Expr) : e.normal.mentions = e.mentions := by
  induction e with
  | wide joining left right l r | tight joining left right l r => simp only [normal, mentions, l, r]
  | apply function argument ih | applyWith function argument n ih => simp only [normal, mentions, ih]
  | index operand place o p => simp only [normal, mentions, o, p]
  | slice operand start stop o l r => simp only [normal, mentions, o, l, r]
  | _ => rfl

@[simp] theorem Simple.mentions_normal (statement : Simple) :
    statement.normal.mentions = statement.mentions := by
  cases statement <;> simp [normal, mentions]

@[simp] theorem Arm.mentions_normal (arm : Arm) : arm.normal.mentions = arm.mentions := by
  simp [normal, mentions, List.flatMap_map]

@[simp] theorem Stmt.mentions_normal (statement : Stmt) :
    statement.normal.mentions = statement.mentions := by
  cases statement <;> simp [normal, mentions, List.flatMap_map]

@[simp] theorem Item.declaredNames_normal (item : Item) :
    item.normal.declaredNames = item.declaredNames := by
  cases item <;> simp [normal, declaredNames]

theorem declaredNames_map_normal (items : List Item) :
    (items.map Item.normal).flatMap Item.declaredNames = items.flatMap Item.declaredNames := by
  simp [List.flatMap_map]

theorem Item.method?_normal (item : Item) :
    item.normal.method? = item.method?.map (Prod.map id (List.map Stmt.normal)) := by
  cases item <;> rfl

theorem HasMethod.normal {typeName : String} {items : List Item}
    (has : HasMethod typeName items) : HasMethod typeName (items.map Item.normal) := by
  obtain ⟨body, method, resolved⟩ := has
  have methods : items.filterMap (Item.method? ∘ Item.normal) =
      (items.filterMap Item.method?).map (Prod.map id (List.map Stmt.normal)) := by
    rw [List.map_filterMap]
    exact List.filterMap_congr fun item _ => Item.method?_normal item
  refine ⟨body.map Stmt.normal, ?_, ?_⟩
  · rw [List.filterMap_map, methods, method]
    rfl
  · rw [declaredNames_map_normal]
    simpa [List.flatMap_map] using resolved

end Normal

section Declared
variable {descriptor : Descriptor} {items : List Item}

/-- What the names of several runs are made from. -/
def runLabels (typeName : String) (part : Part) (runs : List Nat) : List Label :=
  runs.map fun run => ⟨typeName, part, some run⟩

theorem nodup_runLabels {runs : List Nat} (typeName : String) (part : Part) (nodup : runs.Nodup) :
    (runLabels typeName part runs).Nodup := by
  refine List.Nodup.map ?_ nodup
  intro left right same
  simpa using same

theorem mem_runLabels {typeName : String} {part : Part} {runs : List Nat} {label : Label}
    (member : label ∈ runLabels typeName part runs) :
    label.typeName = typeName ∧ label.part = part := by
  obtain ⟨run, _, rfl⟩ := List.mem_map.mp member
  exact ⟨rfl, rfl⟩

theorem declaredNames_multiRun (descriptor : Descriptor) (tables : List NameTable) :
    (multiRun descriptor tables).flatMap Item.declaredNames =
      (blobs descriptor.typeName tables 0).map Prod.fst ++
        (offsets descriptor.typeName descriptor.runs tables 0).map Prod.fst := by
  rw [multiRun_eq]
  split
  · rename_i none
    simp [Item.declaredNames, List.isEmpty_iff.mp none]
  · simp [Item.declaredNames]

/-- The names that a section declares are all different, and all made for its type. -/
theorem Written.labels (written : Written descriptor items) : ∃ labels : List Label,
    items.flatMap Item.declaredNames = labels.map Label.text ∧ labels.Nodup ∧
      ∀ label ∈ labels, label.typeName = descriptor.typeName := by
  cases written with
  | oneRun =>
    exact ⟨[⟨descriptor.typeName, .blob, none⟩, ⟨descriptor.typeName, .offsets, none⟩], rfl,
      by simp, by simp⟩
  | @multiRun tables built =>
    refine ⟨runLabels descriptor.typeName .blob (tables.zipIdx.map Prod.snd) ++
      runLabels descriptor.typeName .offsets
        ((indexed descriptor.runs tables).map Prod.snd), ?_, ?_, ?_⟩
    · rw [declaredNames_multiRun, blobs_eq, offsets_eq]
      simp only [runLabels, List.map_append, List.map_map]
      rfl
    · refine List.Nodup.append (nodup_runLabels _ _ (nodup_places (List.Sublist.refl _)))
        (nodup_runLabels _ _ (nodup_places List.filter_sublist)) ?_
      intro label first second
      have different := (mem_runLabels first).2.symm.trans (mem_runLabels second).2
      cases different
    · intro label member
      rcases List.mem_append.mp member with inside | inside
      · exact (mem_runLabels inside).1
      · exact (mem_runLabels inside).1
  | sparseMap =>
    exact ⟨[⟨descriptor.typeName, .blob, none⟩, ⟨descriptor.typeName, .map, none⟩], rfl,
      by simp, by simp⟩

end Declared

section Resolved
variable {descriptor : Descriptor} {declared : List String} {blob offsets : String}

theorem resolved_receiver (typeName : String) (declared : List String) :
    ∀ mention ∈ receiver.mentions, mention.Resolved typeName declared := by
  simp [receiver, Expr.mentions, Mention.Resolved]

theorem resolved_unshifted (run : Run) : ∀ mention ∈ (unshifted descriptor run).mentions,
    mention.Resolved descriptor.typeName declared := by
  unfold unshifted
  split
  · exact resolved_receiver _ _
  · simp [receiver, Expr.mentions, Mention.Resolved]

theorem resolved_fallback {value : Expr}
    (resolved : ∀ mention ∈ value.mentions, mention.Resolved descriptor.typeName declared) :
    ∀ mention ∈ (fallback descriptor value).mentions,
      mention.Resolved descriptor.typeName declared := by
  unfold fallback
  cases descriptor.signedness with
  | signed | unsigned =>
    simp only [Expr.mentions, List.nil_append, List.append_nil, List.forall_mem_cons]
    exact ⟨.inr (by decide), .inr (by decide), resolved⟩

theorem resolved_nameAtReceiver {typeName : String} (hasBlob : blob ∈ declared)
    (hasOffsets : offsets ∈ declared) :
    ∀ mention ∈ (nameAtReceiver blob offsets).mentions, mention.Resolved typeName declared := by
  simp [nameAtReceiver, receiver, Expr.mentions, Mention.Resolved, hasBlob, hasOffsets]

theorem resolved_outside (hasOffsets : offsetsName descriptor.typeName ∈ declared) :
    ∀ mention ∈ (outside descriptor).mentions, mention.Resolved descriptor.typeName declared := by
  unfold outside
  cases descriptor.signedness with
  | signed | unsigned =>
    simp [memberCount, receiver, Expr.mentions, Mention.Resolved, hasOffsets]

theorem resolved_shift (run : Run) : ∀ mention ∈ (shift descriptor run).flatMap Simple.mentions,
    mention.Resolved descriptor.typeName declared := by
  unfold shift
  split <;> simp [Simple.mentions, Mention.Resolved]

/-- A case reads the constant of its run, and its variable only if the run has one. -/
theorem resolved_arm {run : Run} {place : Nat}
    (hasBlob : numbered (blobName descriptor.typeName) place ∈ declared)
    (hasOffsets : run.others.isEmpty = false →
      numbered (offsetsName descriptor.typeName) place ∈ declared) :
    ∀ mention ∈ (arm descriptor run place).mentions,
      mention.Resolved descriptor.typeName declared := by
  unfold arm
  cases single : run.others.isEmpty with
  | true =>
    rw [if_pos rfl]
    simp [Arm.mentions, Simple.mentions, receiver, Expr.mentions, Mention.Resolved, hasBlob]
  | false =>
    rw [if_neg (by simp)]
    intro mention member
    rcases List.mem_append.mp member with condition | body
    · obtain rfl : mention = .operand "i" := by
        dsimp only at condition
        split at condition <;> simpa [receiver, Expr.mentions] using condition
      exact .inl rfl
    · rw [List.flatMap_append] at body
      rcases List.mem_append.mp body with shifted | name
      · exact resolved_shift run mention shifted
      · rw [List.flatMap_singleton] at name
        exact resolved_nameAtReceiver hasBlob (hasOffsets single) mention name

theorem resolved_arms {tables : List NameTable}
    (lengths : descriptor.runs.length = tables.length) :
    ∀ mention ∈ (arms descriptor).flatMap Arm.mentions, mention.Resolved descriptor.typeName
      ((multiRun descriptor tables).flatMap Item.declaredNames) := by
  rw [declaredNames_multiRun, blobs_eq, offsets_eq, List.map_map, List.map_map]
  intro mention member
  obtain ⟨branch, among, inside⟩ := List.mem_flatMap.mp member
  obtain ⟨⟨run, place⟩, numbering, rfl⟩ := List.mem_map.mp among
  have hasRun : descriptor.runs[place]? = some run := List.mem_zipIdx_iff_getElem?.mp numbering
  obtain ⟨bound, _⟩ := List.getElem?_eq_some_iff.mp hasRun
  have hasTable := List.getElem?_eq_getElem (lengths ▸ bound)
  refine resolved_arm ?_ ?_ mention inside
  · refine List.mem_append_left _ (List.mem_map.mpr ?_)
    exact ⟨(tables[place], place), List.mem_zipIdx_iff_getElem?.mpr hasTable, rfl⟩
  · intro several
    refine List.mem_append_right _ (List.mem_map.mpr ?_)
    exact ⟨((run, tables[place]), place), mem_indexed hasRun hasTable several, rfl⟩

theorem hasMethod_oneRun (run : Run) (table : NameTable) :
    HasMethod descriptor.typeName (oneRun descriptor run table) := by
  have hasBlob : blobName descriptor.typeName ∈
      (oneRun descriptor run table).flatMap Item.declaredNames := List.mem_cons_self
  have hasOffsets : offsetsName descriptor.typeName ∈
      (oneRun descriptor run table).flatMap Item.declaredNames :=
    List.mem_cons_of_mem _ List.mem_cons_self
  have shifted : ((shift descriptor run).map Stmt.simple).flatMap Stmt.mentions =
      (shift descriptor run).flatMap Simple.mentions := by
    rw [List.flatMap_map]
    rfl
  refine ⟨_, rfl, ?_⟩
  rw [List.flatMap_append, shifted]
  intro mention member
  simp only [List.flatMap_cons, List.flatMap_nil, List.append_nil, List.mem_append,
    Stmt.mentions, Simple.mentions] at member
  rcases member with shift | (condition | form) | name
  · exact resolved_shift run mention shift
  · exact resolved_outside hasOffsets mention condition
  · exact resolved_fallback (resolved_unshifted run) mention form
  · exact resolved_nameAtReceiver hasBlob hasOffsets mention name

theorem hasMethod_multiRun {tables : List NameTable}
    (lengths : descriptor.runs.length = tables.length) :
    HasMethod descriptor.typeName (multiRun descriptor tables) := by
  refine ⟨[.switch (arms descriptor) (fallback descriptor receiver)], ?_, ?_⟩
  · rw [multiRun_eq]
    split <;> rfl
  · rw [List.flatMap_singleton]
    intro mention member
    rcases List.mem_append.mp member with inside | otherwise
    · exact resolved_arms lengths mention inside
    · exact resolved_fallback (resolved_receiver _ _) mention otherwise

theorem hasMethod_sparseMap (table : SpanTable) :
    HasMethod descriptor.typeName (sparseMap descriptor table) := by
  have hasMap : mapName descriptor.typeName ∈
      (sparseMap descriptor table).flatMap Item.declaredNames :=
    List.mem_cons_of_mem _ List.mem_cons_self
  refine ⟨_, rfl, ?_⟩
  intro mention member
  simp only [List.flatMap_cons, List.flatMap_nil, List.append_nil, List.mem_append,
    Stmt.mentions, Simple.mentions, List.mem_cons, List.not_mem_nil, or_false] at member
  rcases member with (rfl | rfl) | form
  · exact .inr hasMap
  · exact .inl rfl
  · exact resolved_fallback (resolved_receiver _ _) mention form

theorem Written.hasMethod {items : List Item} (written : Written descriptor items) :
    HasMethod descriptor.typeName items := by
  cases written with
  | @oneRun run table _ _ => exact hasMethod_oneRun run table
  | multiRun built => exact hasMethod_multiRun built.length_eq
  | @sparseMap table _ => exact hasMethod_sparseMap table

end Resolved

/-- What is read from the text of a descriptor: the names that it declares are made from the name
of its type, and it has one method, whose constants and variables are among them. -/
structure IsSection (alphabet : Alphabet) (descriptor : Descriptor) (items : List Item) : Prop where
  read : ∃ text, writeSection descriptor .unbounded = .ok ⟨text, none⟩ ∧
    read? alphabet text = some items
  made : ∀ name ∈ items.flatMap Item.declaredNames, ∃ part run,
    name = Label.text ⟨descriptor.typeName, part, run⟩
  method : HasMethod descriptor.typeName items

section File
variable {alphabet : Alphabet} {descriptors : List Descriptor} {written : List (List Item)}

/-- The items that a descriptor is written as. -/
def WrittenAs (descriptor : Descriptor) (items : List Item) : Prop :=
  Written descriptor items ∧ section? descriptor = some items

theorem WrittenAs.isSection {descriptor : Descriptor} {items : List Item}
    (writes : WrittenAs descriptor items) (named : alphabet.IsName descriptor.typeName) :
    IsSection alphabet descriptor (items.map Item.normal) := by
  obtain ⟨written, found⟩ := writes
  obtain ⟨labels, names, _, own⟩ := written.labels
  constructor
  · exact ⟨_, writeSection_unbounded found, written.read? named⟩
  · rw [declaredNames_map_normal, names]
    intro name member
    obtain ⟨label, inside, rfl⟩ := List.mem_map.mp member
    exact ⟨label.part, label.run, by rw [← own label inside]⟩
  · exact written.hasMethod.normal

theorem exists_writtenAs
    (compiled : ∀ descriptor ∈ descriptors, ∃ typeName records,
      (Descriptor.compile typeName records).outcome = .ok descriptor) :
    ∃ written, List.Forall₂ WrittenAs descriptors written := by
  induction descriptors with
  | nil => exact ⟨[], .nil⟩
  | cons descriptor descriptors ih =>
    obtain ⟨⟨typeName, records, first⟩, others⟩ := List.forall_mem_cons.mp compiled
    obtain ⟨items, writes⟩ := (Descriptor.compile_eq_ok_iff.mp first).written
    obtain ⟨written, rest⟩ := ih others
    exact ⟨items :: written, .cons writes.symm rest⟩

theorem fileLines_eq (heading : Heading) (writes : List.Forall₂ WrittenAs descriptors written) :
    fileLines heading descriptors =
      layout heading.items ++ written.flatMap fun items => "" :: layout items := by
  rw [fileLines]
  congr 1
  induction writes with
  | nil => rfl
  | cons first _ ih =>
    rw [List.flatMap_cons, List.flatMap_cons, ih, sectionLines, first.2]
    rfl

/-- Sections of different types declare different names. -/
theorem exists_labels (writes : List.Forall₂ WrittenAs descriptors written)
    (distinct : (descriptors.map Descriptor.typeName).Nodup) : ∃ labels : List Label,
      written.flatten.flatMap Item.declaredNames = labels.map Label.text ∧ labels.Nodup ∧
        ∀ label ∈ labels, label.typeName ∈ descriptors.map Descriptor.typeName := by
  induction writes with
  | nil => exact ⟨[], rfl, .nil, by simp⟩
  | @cons descriptor items descriptors written first _ ih =>
    obtain ⟨alone, distinct⟩ := List.nodup_cons.mp distinct
    obtain ⟨own, ownNames, ownNodup, ownTypes⟩ := first.1.labels
    obtain ⟨labels, names, nodup, types⟩ := ih distinct
    refine ⟨own ++ labels, ?_, ownNodup.append nodup ?_, ?_⟩
    · rw [List.flatten_cons, List.flatMap_append, ownNames, names, List.map_append]
    · intro label here there
      exact alone (ownTypes label here ▸ types label there)
    · intro label member
      rcases List.mem_append.mp member with here | there
      · rw [ownTypes label here]
        exact List.mem_cons_self
      · exact List.mem_cons_of_mem _ (types label there)

theorem stands_of_writtenAs (writes : List.Forall₂ WrittenAs descriptors written)
    (named : ∀ descriptor ∈ descriptors, alphabet.IsName descriptor.typeName) :
    ∀ items ∈ written, ∀ item ∈ items, item.Stands alphabet := by
  induction writes with
  | nil => simp
  | cons first _ ih =>
    obtain ⟨own, others⟩ := List.forall_mem_cons.mp named
    exact List.forall_mem_cons.mpr ⟨first.1.stands own, ih others⟩

/-- No name is declared twice in the text of a file for different types, however much one type is
called like what another declares, and no method reads the constants and variables of a section
that is not its own. -/
theorem writeFile_identifiers (heading : Heading)
    (compiled : ∀ descriptor ∈ descriptors, ∃ typeName records,
      (Descriptor.compile typeName records).outcome = .ok descriptor)
    (named : ∀ descriptor ∈ descriptors, alphabet.IsName descriptor.typeName)
    (distinct : (descriptors.map Descriptor.typeName).Nodup) :
    ∃ text sections, writeFile heading descriptors .unbounded =
        .ok ⟨lineText (layout heading.items) ++ text, none⟩ ∧
      read? alphabet text = some sections.flatten ∧
      (sections.flatten.flatMap Item.declaredNames).Nodup ∧
      List.Forall₂ (IsSection alphabet) descriptors sections := by
  obtain ⟨written, writes⟩ := exists_writtenAs compiled
  have some : ∀ descriptor ∈ descriptors, (section? descriptor).isSome := by
    intro descriptor member
    obtain ⟨typeName, records, compiled⟩ := compiled descriptor member
    obtain ⟨items, found, _⟩ := (Descriptor.compile_eq_ok_iff.mp compiled).written
    simp [found]
  obtain ⟨labels, names, nodup, _⟩ := exists_labels writes distinct
  refine ⟨lineText (written.flatMap fun items => "" :: layout items),
    written.map (List.map Item.normal), ?_, ?_, ?_, ?_⟩
  · rw [writeFile_eq some, writeLines_unbounded, fileLines_eq heading writes, lineText_append]
  · rw [← List.map_flatten]
    exact read?_sections (stands_of_writtenAs writes named)
  · rw [← List.map_flatten, declaredNames_map_normal, names]
    exact nodup.map Label.text_injective
  · rw [List.forall₂_map_right_iff]
    have both := (List.forall₂_and_left _ _).mpr ⟨named, writes⟩
    exact both.imp fun descriptor items parts => parts.2.isSection parts.1

/-- A type with several runs, and one that is called like what the first one declares. -/
theorem writeFile_identifiers_underscore : ∃ first second text sections,
    (Descriptor.compile "T" [⟨"A", 0, .unsigned⟩, ⟨"B", 1, .unsigned⟩, ⟨"C", 5, .unsigned⟩]).outcome =
      .ok first ∧
    (Descriptor.compile "T_name_0" [⟨"D", 0xffffffffffffffff, .signed⟩]).outcome = .ok second ∧
    writeFile ⟨"types", none⟩ [first, second] .unbounded =
      .ok ⟨lineText (layout (Heading.items ⟨"types", none⟩)) ++ text, none⟩ ∧
    read? ⟨fun _ => false, fun _ => false⟩ text = some (List.flatten sections) ∧
    ((List.flatten sections).flatMap Item.declaredNames).Nodup ∧
    List.Forall₂ (IsSection ⟨fun _ => false, fun _ => false⟩) [first, second] sections := by
  obtain ⟨first, compiledFirst⟩ : ∃ first, (Descriptor.compile "T" [⟨"A", 0, .unsigned⟩,
      ⟨"B", 1, .unsigned⟩, ⟨"C", 5, .unsigned⟩]).outcome = .ok first := ⟨_, by cbv⟩
  obtain ⟨second, compiledSecond⟩ : ∃ second, (Descriptor.compile "T_name_0"
      [⟨"D", 0xffffffffffffffff, .signed⟩]).outcome = .ok second := ⟨_, by cbv⟩
  have firstType := (Descriptor.compile_eq_ok_iff.mp compiledFirst).typeName_eq
  have secondType := (Descriptor.compile_eq_ok_iff.mp compiledSecond).typeName_eq
  have compiled : ∀ descriptor ∈ [first, second], ∃ typeName records,
      (Descriptor.compile typeName records).outcome = .ok descriptor := by
    simp only [List.forall_mem_cons]
    exact ⟨⟨_, _, compiledFirst⟩, ⟨_, _, compiledSecond⟩, by simp⟩
  have named : ∀ descriptor ∈ [first, second],
      Alphabet.IsName ⟨fun _ => false, fun _ => false⟩ descriptor.typeName := by
    simp only [List.forall_mem_cons, firstType, secondType]
    exact ⟨isName_plain (by decide) (by decide), isName_plain (by decide) (by decide), by simp⟩
  have distinct : ([first, second].map Descriptor.typeName).Nodup := by
    simp only [List.map_cons, List.map_nil, firstType, secondType]
    decide
  obtain ⟨text, sections, parts⟩ := writeFile_identifiers ⟨"types", none⟩ compiled named distinct
  exact ⟨first, second, text, sections, compiledFirst, compiledSecond, parts⟩

end File

end EnumNames.Go
