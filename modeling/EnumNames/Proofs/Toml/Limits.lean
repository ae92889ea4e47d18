import EnumNames.Toml.Grammar.Document

/-! Documents within limits are documents within wider ones. The induction is on how deep brackets
may open inside one another; a value that may have none is one at any depth. -/
namespace EnumNames.Toml

variable {text rest : List Char} {most more : Nat}

theorem Within.mono {path : Path} (within : Within most text path rest) (bound : most ≤ more) :
    Within more text path rest :=
  ⟨within.dotted, Nat.le_trans within.few bound⟩

section
variable {α : Type} {form wider : Form α}
  (weaker : ∀ {text found rest}, form text found rest → wider text found rest)
include weaker

theorem Items.mono {closing : Char} {found : List α} (items : Items closing form text found rest) :
    Items closing wider text found rest := by
  induction items with
  | none space => exact .none space
  | last before first after => exact .last before (weaker first) after
  | next before first after _ ih => exact .next before (weaker first) after ih

end

theorem Assigns.mono {form wider : Form Value} {assignment : Assignment}
    (assigns : Assigns most form text assignment rest) (bound : most ≤ more)
    (weaker : ∀ {text found rest}, form text found rest → wider text found rest) :
    Assigns more wider text assignment rest := by
  obtain ⟨within, before, after, written⟩ := assigns
  exact .mk (within.mono bound) before after (weaker written)

theorem Scalar.valued {value : Value} (scalar : Scalar text value rest) (most nesting : Nat) :
    Valued most nesting text value rest := by
  cases nesting with
  | zero => exact scalar
  | succ nesting => exact .scalar scalar

theorem Valued.mono {nesting deeper : Nat} {value : Value}
    (valued : Valued most nesting text value rest) (bound : most ≤ more)
    (deep : nesting ≤ deeper) : Valued more deeper text value rest := by
  induction nesting generalizing deeper text value rest with
  | zero => exact Scalar.valued valued more deeper
  | succ nesting ih =>
    obtain ⟨inner, rfl⟩ := Nat.exists_eq_add_one_of_ne_zero (by omega : deeper ≠ 0)
    have weaker {text found rest} (valued : Valued most nesting text found rest) :
        Valued more inner text found rest := ih valued (Nat.le_of_succ_le_succ deep)
    cases valued with
    | scalar scalar => exact .scalar scalar
    | array items => exact .array (items.mono weaker)
    | table items filled =>
      exact .table (items.mono fun assigns => assigns.mono bound weaker) filled

section
variable {limits wider : Limits} (parents : limits.parents ≤ wider.parents)
  (nesting : limits.nesting ≤ wider.nesting)
include parents nesting

theorem Stated.mono {statement : Statement} (stated : Stated limits text statement rest) :
    Stated wider text statement rest := by
  cases stated with
  | assign assigns =>
    exact .assign (assigns.mono parents fun valued => valued.mono parents nesting)
  | header before within after => exact .header before (within.mono parents) after
  | row before within after => exact .row before (within.mono parents) after

theorem Line.mono {statements : List Statement} (line : Line limits text statements rest) :
    Line wider text statements rest := by
  cases line with
  | empty tail => exact .empty tail
  | statement indent stated tail =>
    exact .statement indent (stated.mono parents nesting) tail

theorem Lines.mono {statements : List Statement} (lines : Lines limits text statements) :
    Lines wider text statements := by
  induction lines with
  | last line => exact .last (line.mono parents nesting)
  | more line lineEnd _ ih => exact .more (line.mono parents nesting) lineEnd ih

/-- A document within limits has the same under its keys within wider ones. -/
theorem Document.mono {contents : List (String × Node)}
    (document : Document limits text contents) : Document wider text contents := by
  obtain ⟨marked, lines, run⟩ := document
  exact .mk marked (lines.mono parents nesting) run

end

end EnumNames.Toml
