import EnumNames.Policy.Basic
import EnumNames.Toml.Decoder

/-! Policies written as documents: a policy is a record with two fields, and no other key may stand
in its document. -/
namespace EnumNames.Policy

/-- The key under which the beginning to cut off is written. -/
def trimKey : String := "trim_prefix"

/-- The key under which it is written whether comments count. -/
def commentKey : String := "line_comment"

def trimSlot : Slot Policy := .string fun text policy => { policy with trimPrefix := text }

def commentSlot : Slot Policy := .boolean fun value policy => { policy with lineComment := value }

/-- A field that is missing is as in the plain policy. -/
def shape : Shape Policy where
  fields := [(trimKey, trimSlot), (commentKey, commentSlot)]
  initial := plain
  closed := true

/-- What is wrong with a source. -/
inductive Fault
  /-- It is no document. -/
  | malformed
  /-- It is a document that does not fill a policy. -/
  | misshapen (report : String)
deriving DecidableEq, Repr

/-- The wording of a fault in the shape of a document. -/
def Fault.message? : Fault → Option String
  | .malformed => none
  | .misshapen report => some ("invalid naming policy: " ++ report)

/-- The policy that a decoder fills from a source. -/
def read (decoder : Decoder Place Policy) (source : String) : Except Fault Policy :=
  match decoder.offers? source with
  | none => .error .malformed
  | some offers =>
    match decoder.fill shape offers with
    | .ok policy => .ok policy
    | .error (place, objection) => .error (.misshapen (decoder.wording source place objection))

/-- How far documents of policies are followed. -/
def limits : Toml.Limits := ⟨79, 80⟩

/-- The policy that a TOML document describes. -/
def ofToml (source : String) : Except Fault Policy := read (Toml.decoder limits) source

end EnumNames.Policy
