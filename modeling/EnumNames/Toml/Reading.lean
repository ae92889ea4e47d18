/-! Reading from the beginning of a text. What is read leaves a shorter text behind, and every loop
over a document ends because of that. -/
namespace EnumNames.Toml

/-- What stands at the beginning of a text, and the text behind it. -/
structure Reading (α : Type) (text : List Char) where
  found : α
  rest : List Char
  shorter : rest.length < text.length

abbrev Reader (α : Type) := (text : List Char) → Option (Reading α text)

namespace Reading

variable {α β : Type} {text : List Char}

/-- What is found in the first character alone. -/
def first {c : Char} (found : α) (rest : List Char) : Reading α (c :: rest) :=
  ⟨found, rest, Nat.lt_succ_self _⟩

/-- A reading behind one more character. -/
def after {c : Char} (reading : Reading α text) : Reading α (c :: text) :=
  ⟨reading.found, reading.rest, Nat.lt_succ_of_lt reading.shorter⟩

/-- A reading that changes what is found. -/
def map (f : α → β) (reading : Reading α text) : Reading β text :=
  ⟨f reading.found, reading.rest, reading.shorter⟩

/-- A reading from a pair whose second part is known to be shorter. -/
def of? (pair? : Option (α × List Char))
    (shorter : ∀ found rest, pair? = some (found, rest) → rest.length < text.length) :
    Option (Reading α text) :=
  match pair?, shorter with
  | some (found, rest), shorter => some ⟨found, rest, shorter found rest rfl⟩
  | none, _ => none

end Reading

/-- A first character that is `c`. -/
def symbol? (c : Char) : Reader Unit
  | [] => none
  | d :: rest => if d = c then some (.first () rest) else none

end EnumNames.Toml
