import EnumNames.Error

/-! Steps that report what they do. A step has a log and an outcome; the log of a sequence of
steps is the logs in order, up to and including the step that fails. -/
namespace EnumNames

inductive Level
  | debug
  | trace
deriving DecidableEq, Repr

def Level.name : Level → String
  | .debug => "DEBUG"
  | .trace => "TRACE"

/-- What a compilation reports. Numbers in an event are written in decimal. -/
inductive Event
  /-- The constant `dropped` repeats the value of `kept`. -/
  | duplicate (typeName kept dropped : String) (value : UInt64)
  /-- The constants form this many runs. -/
  | split (runs : Nat)
  /-- The name table of a type is ready; `width` is in bits. -/
  | compiled (typeName strategy : String) (runs width : Nat)
deriving DecidableEq, Repr

namespace Event

def level : Event → Level
  | .duplicate .. | .compiled .. => .debug
  | .split _ => .trace

def message : Event → String
  | .duplicate .. => "Dropping constant with duplicate value"
  | .split _ => "Split constants into runs"
  | .compiled .. => "Compiled name table"

/-- The named details of an event. -/
def fields : Event → List (String × String)
  | .duplicate typeName kept dropped value =>
    [("type_name", typeName), ("kept", kept), ("dropped", dropped), ("value", toString value.toNat)]
  | .split runs => [("runs", toString runs)]
  | .compiled typeName strategy runs width =>
    [("type_name", typeName), ("strategy", strategy), ("runs", toString runs),
      ("width", toString width)]

end Event

/-- What a step reports and what comes of it. -/
structure Traced (α : Type) where
  log : List Event
  outcome : Except Error α
deriving Repr

namespace Traced

/-- A step that reports nothing. -/
def ofExcept (outcome : Except Error α) : Traced α := ⟨[], outcome⟩

/-- Reports the events, in order. -/
def report (events : List Event) : Traced Unit := ⟨events, .ok ()⟩

protected def bind (step : Traced α) (next : α → Traced β) : Traced β :=
  match step.outcome with
  | .ok result => ⟨step.log ++ (next result).log, (next result).outcome⟩
  | .error error => ⟨step.log, .error error⟩

instance : Monad Traced where
  pure result := ⟨[], .ok result⟩
  bind := Traced.bind

end Traced
end EnumNames
