import TickReplay.Json.Value

/- Structured log lines: one JSON object each, errors on the error stream and the rest on the output
   stream. The clock reading of a line is supplied by whoever prints it. -/
namespace TickReplay.Log

inductive Level where
  | info
  | warn
  | error
  deriving DecidableEq, Repr

def Level.name : Level → String
  | .info => "info"
  | .warn => "warn"
  | .error => "error"

inductive Stream where
  | output
  | errors
  deriving DecidableEq, Repr

def Level.stream : Level → Stream
  | .error => .errors
  | _ => .output

structure Entry where
  level : Level
  event : String
  message : String
  metadata : Json
  deriving Repr

def Entry.json (clock : Nat) (entry : Entry) : Json :=
  .object [("level", .text entry.level.name), ("event", .text entry.event),
    ("message", .text entry.message), ("timestamp_ms", Json.ofNat clock),
    ("metadata", entry.metadata.canonical)]

def Entry.line (clock : Nat) (entry : Entry) : String := (entry.json clock).compact

structure Printed where
  stream : Stream
  line : String
  deriving DecidableEq, Repr

inductive Call where
  | setSilent (silent : Bool)
  | emit (entry : Entry)
  deriving Repr

/-- The new state of silence and what the call prints. -/
def Call.run (clock : Nat) (silent : Bool) : Call → Bool × List Printed
  | .setSilent silent => (silent, [])
  | .emit entry =>
    (silent, if silent then [] else [⟨entry.level.stream, entry.line clock⟩])

def runTimed (silent : Bool) : List (Nat × Call) → List (List Printed)
  | [] => []
  | (clock, call) :: more =>
    let (silent, printed) := call.run clock silent
    printed :: runTimed silent more

end TickReplay.Log
