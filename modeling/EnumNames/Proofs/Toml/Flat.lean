import EnumNames.Proofs.Toml.Limits
import EnumNames.Proofs.Toml.Table
import Mathlib.Data.List.Forall2

/-! Documents without tables: each statement puts a value under a key alone, and what stands under
the keys of the document is what its statements put there. -/
namespace EnumNames.Toml

variable {limits : Limits} {text rest : List Char}

/-- A statement puts a value under a key alone. -/
inductive Statement.Puts : Statement → String × Value → Prop
  | mk {key : Key} {extent : Extent} {value : Value} :
    Puts (.assign ⟨⟨[], key⟩, extent, value⟩) (key.name, value)

/-- An entry of a document. -/
def inDocument (given : String × Value) : String × Node := (given.1, .value given.2)

/-! ### The tables -/

namespace Assembly

theorem find?_document_eq_none_iff {assembly : Assembly} {name : String} :
    assembly.find? 0 name = none ↔ name ∉ assembly.contents.map Prod.fst := by
  rw [find?_eq_none_iff, contents, top, List.map_map, List.mem_map, List.mem_map]
  simp

theorem contents_add (assembly : Assembly) (key : Key) (extent : Extent) (node : Node) :
    (assembly.add ⟨0, key, extent, node⟩).contents = assembly.contents ++ [(key.name, node)] := by
  simp [contents, top, add]

end Assembly

/-- Statements with different keys that are new add them with their values. -/
theorem exists_runs_of_puts {statements : List Statement} {given : List (String × Value)}
    (puts : List.Forall₂ Statement.Puts statements given) {assembly : Assembly}
    (nodup : ((assembly.contents ++ given.map inDocument).map Prod.fst).Nodup) :
    ∃ next, Statement.Runs statements (assembly, 0) (next, 0) ∧
      next.contents = assembly.contents ++ given.map inDocument := by
  induction puts generalizing assembly with
  | nil => exact ⟨assembly, .none, (List.append_nil _).symm⟩
  | @cons _ _ statements given first _ ih =>
    obtain @⟨key, extent, value⟩ := first
    have added := assembly.contents_add key extent (.value value)
    have whole : assembly.contents ++ ((key.name, value) :: given).map inDocument =
        (assembly.add ⟨0, key, extent, .value value⟩).contents ++ given.map inDocument := by
      rw [added, List.append_assoc]
      rfl
    rw [whole] at nodup ⊢
    obtain ⟨next, runs, contents⟩ := ih nodup
    have new : assembly.find? 0 key.name = none := by
      rw [added, List.append_assoc, List.map_append, List.nodup_append] at nodup
      rw [Assembly.find?_document_eq_none_iff]
      exact fun member => nodup.2.2 _ member key.name (by simp) rfl
    exact ⟨next, .next (.assign ⟨.here, new⟩) runs, contents⟩

/-- What lines put under different keys makes up a document. -/
theorem Lines.document {statements : List Statement} {given : List (String × Value)}
    (lines : Lines limits text statements) (puts : List.Forall₂ Statement.Puts statements given)
    (nodup : (given.map Prod.fst).Nodup) : Document limits text (given.map inDocument) := by
  have keys : ((Assembly.empty.contents ++ given.map inDocument).map Prod.fst).Nodup := by
    rw [List.map_append, List.map_map]
    exact nodup
  obtain ⟨assembly, runs, contents⟩ := exists_runs_of_puts puts keys
  rw [← List.nil_append (given.map inDocument)]
  exact contents ▸ Document.mk (.inl rfl) lines runs

/-! ### The lines -/

/-- A key without marks, and a value behind an equals sign with blanks around it. -/
theorem exists_stated (key : String) (nonempty : key.toList ≠ [])
    (bare : key.toList.all isBareKeyChar) {written : List Char} {value : Value}
    (scalar : Scalar written value rest) :
    ∃ statement, Stated limits (key.toList ++ ' ' :: '=' :: ' ' :: written) statement rest ∧
      statement.Puts (key, value) := by
  have name : SingleKey (key.toList ++ ' ' :: '=' :: ' ' :: written) key
      (' ' :: '=' :: ' ' :: written) := by
    have ends : ∀ c ∈ (' ' :: '=' :: ' ' :: written).head?, isBareKeyChar c = false := by
      rintro c ⟨⟩
      decide
    have single := SingleKey.bare nonempty bare ends
    rwa [String.ofList_toList] at single
  exact ⟨_, .assign (.mk ⟨.last name, Nat.zero_le _⟩ (.blank rfl .none) (.blank rfl .none)
    (scalar.valued _ _)), .mk⟩

end EnumNames.Toml
