/-! The three shapes of a name table, chosen by the number of runs alone. -/
namespace EnumNames

inductive Strategy
  /-- One run, indexed directly. -/
  | oneRun
  /-- A few runs, tested one after the other and then indexed. -/
  | multiRun
  /-- A map from values to names. -/
  | sparseMap
deriving DecidableEq, Repr

namespace Strategy

/-- The greatest number of runs that are still tested one after the other. -/
def maxTestedRuns : Nat := 10

def select (runs : Nat) : Strategy :=
  if runs ≤ 1 then .oneRun else if runs ≤ maxTestedRuns then .multiRun else .sparseMap

def name : Strategy → String
  | .oneRun => "OneRun"
  | .multiRun => "MultiRun"
  | .sparseMap => "SparseMap"

end Strategy
end EnumNames
