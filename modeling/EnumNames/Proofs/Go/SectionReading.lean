import EnumNames.Proofs.Go.LayoutReading
import EnumNames.Proofs.Go.Layout
import EnumNames.Proofs.Go.Names
import EnumNames.Proofs.Go.Section

/-! The text of a section is read back as the section, whatever the letters of the type's name. -/
namespace EnumNames.Go
variable {alphabet : Alphabet} {descriptor : Descriptor} {typeName : String}

theorem isName_plain {name : String}
    (plain : name.toList.head?.any (fun c => c.isAlpha || c == '_') &&
      name.toList.all fun c => c.isAlphanum || c == '_')
    (free : keywords.lookup name = none) : alphabet.IsName name := ⟨isWord_plain plain, free⟩

theorem stands_receiver {level : Nat} : receiver.Stands alphabet level :=
  isName_plain (by decide) (by decide)

/-- A name needs no escapes. -/
theorem verbatim_of_isName (named : alphabet.IsName typeName) :
    ∀ c ∈ (typeName ++ "(").toList, c ≠ '"' ∧ c ≠ '\\' ∧ c ≠ '\n' := by
  have apart : ∀ d ∈ ['"', '\\', '\n'], alphabet.continuesName d = false := by
    intro d member
    simp only [List.mem_cons, List.not_mem_nil, or_false] at member
    rcases member with rfl | rfl | rfl <;>
      exact continuesName_low (by decide) (by decide) (by decide)
  intro c member
  rw [String.toList_append, List.mem_append] at member
  rcases member with letter | parenthesis
  · have continues := List.all_eq_true.mp named.1.2 c letter
    refine ⟨?_, ?_, ?_⟩ <;>
    · rintro rfl
      rw [apart _ (by decide)] at continues
      cases continues
  · obtain rfl : c = '(' := by simpa using parenthesis
    decide

theorem stands_fallback (named : alphabet.IsName descriptor.typeName) {value : Expr}
    (stands : value.Stands alphabet 1) : (fallback descriptor value).Stands alphabet 1 := by
  refine ⟨by decide, ⟨by decide, verbatim_of_isName named, ?_⟩, ?_⟩
  · cases descriptor.signedness with
    | signed => exact ⟨by decide, isName_plain (by decide) (by decide), stands⟩
    | unsigned => exact ⟨by decide, isName_plain (by decide) (by decide), stands⟩
  · intro c member
    obtain rfl : c = ')' := by simpa using member
    decide

theorem stands_nameAtReceiver {blob offsets : String} (blobMade : IsMade typeName blob)
    (offsetsMade : IsMade typeName offsets) (named : alphabet.IsName typeName) :
    (nameAtReceiver blob offsets).Stands alphabet 1 := by
  have offsetsNamed := offsetsMade.isName named
  refine ⟨⟨_, rfl, blobMade.isName named⟩, ⟨⟨_, rfl, offsetsNamed⟩, stands_receiver⟩,
    ⟨⟨_, rfl, offsetsNamed⟩, by decide, stands_receiver, 1, rfl⟩, ?_⟩
  simp only [Expr.text, String.toList_append, List.head?_append, offsetsMade.head, Option.some_or]
  rfl

theorem stands_shift (run : Run) :
    ∀ statement ∈ shift descriptor run, statement.Stands alphabet := by
  unfold shift
  split
  · simp
  · rw [List.forall_mem_singleton]
    exact isName_plain (by decide) (by decide)

theorem stands_offsetsArray (table : NameTable) : (offsetsArray table).Stands alphabet 1 := by
  change table.width.bits ∈ [8, 16, 32]
  cases table.width <;> decide

theorem stands_outside (named : alphabet.IsName descriptor.typeName) :
    (outside descriptor).Stands alphabet 1 := by
  have len : alphabet.IsName "len" := isName_plain (by decide) (by decide)
  have offsetsNamed := (isMade_offsetsName descriptor.typeName).isName named
  have beyond : (Expr.wide .atLeast receiver (memberCount descriptor.typeName
      (offsetsName descriptor.typeName))).Stands alphabet 2 :=
    ⟨by decide, stands_receiver, named, by decide, ⟨len, offsetsNamed⟩, 1, rfl⟩
  unfold outside
  cases descriptor.signedness with
  | signed => exact ⟨by decide, ⟨by decide, stands_receiver, trivial⟩, beyond⟩
  | unsigned => exact ⟨by decide, beyond.2⟩

theorem stands_unshifted (run : Run) : (unshifted descriptor run).Stands alphabet 1 := by
  unfold unshifted
  split
  · exact stands_receiver
  · exact ⟨by decide, stands_receiver, trivial⟩

theorem stands_oneRun (named : alphabet.IsName descriptor.typeName) (run : Run)
    (table : NameTable) :
    ∀ item ∈ oneRun descriptor run table, item.Stands alphabet := by
  have blobMade := isMade_blobName descriptor.typeName
  have offsetsMade := isMade_offsetsName descriptor.typeName
  rw [oneRun_eq]
  simp only [List.forall_mem_cons]
  refine ⟨⟨blobMade.isName named, trivial⟩,
    ⟨offsetsMade.isName named, stands_offsetsArray table⟩, ⟨named, ?_⟩, by simp⟩
  intro statement member
  rcases List.mem_append.mp member with shifted | rest
  · obtain ⟨inner, among, rfl⟩ := List.mem_map.mp shifted
    exact stands_shift run inner among
  · simp only [List.mem_cons, List.not_mem_nil, or_false] at rest
    rcases rest with rfl | rfl
    · exact ⟨stands_outside named, stands_fallback named (stands_unshifted run)⟩
    · exact stands_nameAtReceiver blobMade offsetsMade named

theorem stands_arm (named : alphabet.IsName descriptor.typeName) (run : Run) (place : Nat) :
    (arm descriptor run place).Stands alphabet := by
  have blobMade := (isMade_blobName descriptor.typeName).numbered place
  have offsetsMade := (isMade_offsetsName descriptor.typeName).numbered place
  unfold arm
  split
  · refine ⟨⟨by decide, stands_receiver, trivial⟩, ?_⟩
    rw [List.forall_mem_singleton]
    exact blobMade.isName named
  · constructor
    · dsimp only
      split
      · exact ⟨by decide, stands_receiver, trivial⟩
      · exact ⟨by decide, ⟨by decide, trivial, stands_receiver⟩, by decide, stands_receiver, trivial⟩
    · intro statement member
      rcases List.mem_append.mp member with shifted | last
      · exact stands_shift run statement shifted
      · rw [List.mem_singleton.mp last]
        exact stands_nameAtReceiver blobMade offsetsMade named

theorem stands_multiRun (named : alphabet.IsName descriptor.typeName) (tables : List NameTable) :
    ∀ item ∈ multiRun descriptor tables, item.Stands alphabet := by
  refine forall_mem_multiRun ?_ ?_ ⟨named, ?_⟩
  · intro definition member
    obtain ⟨table, place, rfl⟩ := mem_blobs member
    exact ⟨((isMade_blobName _).numbered place).isName named, trivial⟩
  · intro definition member
    obtain ⟨table, place, rfl⟩ := mem_offsets member
    exact ⟨((isMade_offsetsName _).numbered place).isName named, stands_offsetsArray table⟩
  · rw [List.forall_mem_singleton]
    refine ⟨?_, stands_fallback named stands_receiver⟩
    intro branch member
    obtain ⟨⟨run, place⟩, _, rfl⟩ := List.mem_map.mp member
    exact stands_arm named run place

theorem stands_sparseMap (named : alphabet.IsName descriptor.typeName) (table : SpanTable) :
    ∀ item ∈ sparseMap descriptor table, item.Stands alphabet := by
  have blobNamed := (isMade_blobName descriptor.typeName).isName named
  have mapNamed := (isMade_mapName descriptor.typeName).isName named
  rw [sparseMap_eq]
  simp only [List.forall_mem_cons]
  refine ⟨⟨blobNamed, trivial⟩, ⟨mapNamed, named, ?_⟩, ⟨named, ?_⟩, by simp⟩
  · intro entry member
    obtain ⟨record, _, span, _, rfl⟩ := mem_entries member
    refine ⟨⟨_, rfl, blobNamed⟩, trivial, trivial, ?_⟩
    obtain ⟨c, others, written, digit⟩ := toList_toString_eq_cons span.stop.toNat
    change ((toString span.stop.toNat).toList.head?.any isApart) = true
    rw [written]
    simp [isApart, Char.isAlphanum, digit]
  · simp only [List.forall_mem_cons]
    exact ⟨⟨mapNamed, isName_plain (by decide) (by decide)⟩,
      stands_fallback named stands_receiver, by simp⟩

theorem Written.stands {items : List Item} (written : Written descriptor items)
    (named : alphabet.IsName descriptor.typeName) : ∀ item ∈ items, item.Stands alphabet := by
  cases written with
  | oneRun => exact stands_oneRun named _ _
  | multiRun => exact stands_multiRun named _
  | sparseMap => exact stands_sparseMap named _

/-- A section is read back from its text. -/
theorem Written.read? {items : List Item} (written : Written descriptor items)
    (named : alphabet.IsName descriptor.typeName) :
    read? alphabet (lineText (layout items)) = some (items.map Item.normal) :=
  read?_layout (written.stands named)

end EnumNames.Go
