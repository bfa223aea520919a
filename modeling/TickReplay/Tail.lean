import TickReplay.Endpoint
import TickReplay.Log
import TickReplay.Text.Terminal
import TickReplay.Tick.Basic
import TickReplay.Tick.Schema

/- Following a feed: every message that holds a tick of the wanted symbol prints one row, every
   malformed one a warning. The limit is looked at after a row has been printed. -/
namespace TickReplay.Tail

structure Options where
  endpoint : String
  symbol : Option String
  limit : Option Nat
  deriving DecidableEq, Repr

/- A message is a list of frames. -/
abbrev Message := List (List UInt8)

inductive MessageError where
  | multipart
  | notText (fault : Utf8.Fault)
  | schema (text : List Char) (fault : Json.Fault)
  deriving DecidableEq, Repr

def MessageError.message : MessageError → String
  | .multipart =>
    "unexpected multipart message: Message must have only 1 frame to convert to Vec<u8>"
  | .notText fault => s!"payload is not UTF-8: {fault.message}"
  | .schema text fault => s!"{Tick.schemaMessage}: {fault.message text}"

def decode : Message → Except MessageError Tick
  | [frame] =>
    match Utf8.decode frame with
    | .error fault => .error (.notText fault)
    | .ok text =>
      match Tick.ofWireText text with
      | .ok tick => .ok tick
      | .error fault => .error (.schema text fault)
  | _ => .error .multipart

inductive Output where
  | row (tick : Tick)
  | malformed (error : MessageError)
  | skipped
  deriving DecidableEq, Repr

def malformedEntry (error : MessageError) : Log.Entry :=
  ⟨.warn, "tail.malformed", "Skipping payload that does not match the tick schema",
    .object [("error", .text error.message)]⟩

def Output.text (clock : Nat) : Output → Option String
  | .row tick => some tick.row
  | .malformed error => some ((malformedEntry error).line clock)
  | .skipped => none

def Options.wants (options : Options) (tick : Tick) : Bool :=
  options.symbol.all fun symbol => symbol == tick.symbol

def Options.output (options : Options) (message : Message) : Output :=
  match decode message with
  | .error error => .malformed error
  | .ok tick => if options.wants tick then .row tick else .skipped

inductive Ending where
  | limit
  | interrupt
  deriving DecidableEq, Repr

def Options.reached (options : Options) (printed : Nat) : Bool :=
  options.limit.any fun limit => limit ≤ printed

/-- The rows printed behind an output, none when the stream ends with it. -/
def Options.next (options : Options) (printed : Nat) : Output → Option Nat
  | .row _ => if options.reached (printed + 1) then none else some (printed + 1)
  | _ => some printed

def follow (options : Options) (printed : Nat) : List Message → List Output × Ending
  | [] => ([], .interrupt)
  | message :: more =>
    let output := options.output message
    match options.next printed output with
    | none => ([output], .limit)
    | some printed =>
      let (outputs, ending) := follow options printed more
      (output :: outputs, ending)

def banner (options : Options) : String := s!"Connected to {options.endpoint}; streaming ticks..."

def connectMessage (options : Options) (cause : SocketError) : String :=
  s!"failed to connect to {options.endpoint}; start the feeder with `cargo run` first: " ++
    cause.message

def lines (texts : List String) : List String :=
  texts.flatMap fun text => (Text.lines text.toList).map String.ofList

end TickReplay.Tail
