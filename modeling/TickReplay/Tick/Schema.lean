import TickReplay.Json.Numeral
import TickReplay.Json.Punctuation
import TickReplay.Tick.Basic

/- Reading a tick from JSON. Accepted are an object with exactly the four members in any order and a
   list of the four values in declaration order. A refusal by the schema itself takes its place only
   after the reader has tried to close the object or list. -/
namespace TickReplay.Tick

open Json (Fault Cause)

/-- What stands where a value of another kind was wanted; the text is not blank in front. -/
def mismatch (wanted : String) (cs : List Char) : Fault :=
  let wrong (found : Json.Found) (rest : List Char) : Fault := .here (.wrongType found wanted) rest
  let named (name : String) (found : Json.Found) (rest : List Char) : Fault :=
    match Json.readIdent name.toList rest with
    | .ok rest => wrong found rest
    | .error fault => fault
  match cs with
  | [] => .here .expectedValue []
  | 'n' :: rest => named "ull" .null rest
  | 't' :: rest => named "rue" (.boolean true) rest
  | 'f' :: rest => named "alse" (.boolean false) rest
  | '"' :: rest =>
    match Json.readText rest with
    | .ok (text, rest) => wrong (.text (String.ofList text)) rest
    | .error fault => fault
  | '[' :: _ => wrong .list cs
  | '\x7b' :: _ => wrong .object cs
  | c :: _ =>
    if Json.startsNumeral c then
      match Json.readNumeral cs with
      | .ok (number, rest) => wrong (.number number) rest
      | .error fault => fault
    else .next .expectedValue cs

def readNumber (wanted : String) (cs : List Char) : Except Fault (Json.Number × List Char) :=
  match Json.skipSpace cs with
  | [] => .error (.here .endOfValue [])
  | c :: rest =>
    if Json.startsNumeral c then Json.readNumeral (c :: rest)
    else .error (mismatch wanted (c :: rest))

def timestampWanted : String := "i64"
def realWanted : String := "f64"
def textWanted : String := "a string"
def tickWanted : String := "struct Tick"
def listWanted : String := "struct Tick with 4 elements"

def readTimestamp (cs : List Char) : Except Fault (Int64 × List Char) := do
  let (number, rest) ← readNumber timestampWanted cs
  match number with
  | .integer n =>
    if n < half64 then return (Int64.ofInt n, rest)
    else throw (.here (.wrongValue (.number number) timestampWanted) rest)
  | .real _ => throw (.here (.wrongType (.number number) timestampWanted) rest)

def realOfNumber : Json.Number → Binary64
  | .integer n => Binary64.ofCode (n < 0) (Binary64.ofNat n.natAbs)
  | .real x => x

def readReal (cs : List Char) : Except Fault (Binary64 × List Char) := do
  let (number, rest) ← readNumber realWanted cs
  return (realOfNumber number, rest)

def readSymbol (cs : List Char) : Except Fault (String × List Char) :=
  match Json.skipSpace cs with
  | [] => .error (.here .endOfValue [])
  | '"' :: rest => (Json.readText rest).map fun (text, rest) => (String.ofList text, rest)
  | other => .error (mismatch textWanted other)

structure Draft where
  timestamp : Option Int64 := none
  symbol : Option String := none
  price : Option Binary64 := none
  volume : Option Binary64 := none
  deriving DecidableEq, Repr

def Draft.has (draft : Draft) : Field → Bool
  | .timestamp => draft.timestamp.isSome
  | .symbol => draft.symbol.isSome
  | .price => draft.price.isSome
  | .volume => draft.volume.isSome

def Draft.read (draft : Draft) (field : Field) (cs : List Char) :
    Except Fault (Draft × List Char) :=
  match field with
  | .timestamp => (readTimestamp cs).map fun (v, rest) => ({ draft with timestamp := some v }, rest)
  | .symbol => (readSymbol cs).map fun (v, rest) => ({ draft with symbol := some v }, rest)
  | .price => (readReal cs).map fun (v, rest) => ({ draft with price := some v }, rest)
  | .volume => (readReal cs).map fun (v, rest) => ({ draft with volume := some v }, rest)

def Draft.complete (draft : Draft) : Except Field Tick :=
  match draft.timestamp, draft.symbol, draft.price, draft.volume with
  | some timestamp, some symbol, some price, some volume => .ok ⟨timestamp, symbol, price, volume⟩
  | none, _, _, _ => .error .timestamp
  | _, none, _, _ => .error .symbol
  | _, _, none, _ => .error .price
  | _, _, _, none => .error .volume

inductive Refusal where
  | placed (fault : Fault)
  | unplaced (cause : Cause) (rest : List Char)
  deriving DecidableEq, Repr

/-- The members of an object. `room` counts the fields still to come, so without room a known name
    is a repeated one. -/
def readMembers (room : Nat) (draft : Draft) (first : Bool) (cs : List Char) :
    Except Refusal (Draft × List Char) :=
  match Json.nextKey first cs with
  | .error fault => .error (.placed fault)
  | .ok none => .ok (draft, cs)
  | .ok (some (key, rest)) =>
    let name := String.ofList key
    match Field.named? name, room with
    | none, _ => .error (.unplaced (.unknownMember name (Field.all.map Field.name)) rest)
    | some _, 0 => .error (.unplaced (.repeatedMember name) rest)
    | some field, room + 1 =>
      if draft.has field then .error (.unplaced (.repeatedMember name) rest)
      else match Json.colon rest >>= draft.read field with
        | .error fault => .error (.placed fault)
        | .ok (draft, rest) => readMembers room draft false rest

def readElements (draft : Draft) (cs : List Char) (count : Nat) :
    List Field → Except Refusal (Draft × List Char)
  | [] => .ok (draft, cs)
  | field :: more =>
    match Json.nextElement (count == 0) cs with
    | .error fault => .error (.placed fault)
    | .ok none => .error (.unplaced (.wrongLength count listWanted) cs)
    | .ok (some rest) =>
      match draft.read field rest with
      | .error fault => .error (.placed fault)
      | .ok (draft, rest) => readElements draft rest (count + 1) more

def passClose (close : Char) (cs : List Char) : List Char :=
  match Json.skipSpace cs with
  | [] => []
  | c :: rest => if c = close then rest else c :: rest

def Refusal.place (close : Char) : Refusal → Fault
  | .placed fault => fault
  | .unplaced cause rest => .here cause (passClose close rest)

def readObject (cs : List Char) : Except Fault (Tick × List Char) :=
  let read := do
    let (draft, rest) ← readMembers Field.all.length {} true cs
    match draft.complete with
    | .ok tick => return (tick, rest)
    | .error field => throw (Refusal.unplaced (.missingMember field.name) rest)
  match read with
  | .error refusal => .error (refusal.place '\x7d')
  | .ok (tick, rest) => (Json.closeObject rest).map fun rest => (tick, rest)

def readList (cs : List Char) : Except Fault (Tick × List Char) :=
  let read := do
    let (draft, rest) ← readElements {} cs 0 Field.all
    match draft.complete with
    | .ok tick => return (tick, rest)
    | .error field => throw (Refusal.unplaced (.missingMember field.name) rest)
  match read with
  | .error refusal => .error (refusal.place ']')
  | .ok (tick, rest) => (Json.closeList rest).map fun rest => (tick, rest)

def readTick (cs : List Char) : Except Fault (Tick × List Char) :=
  match Json.skipSpace cs with
  | [] => .error (.here .endOfValue [])
  | '\x7b' :: rest => readObject rest
  | '[' :: rest => readList rest
  | other => .error (mismatch tickWanted other)

def ofWireText (cs : List Char) : Except Fault Tick := do
  let (tick, rest) ← readTick cs
  Json.finish rest
  return tick

def schemaMessage : String := "payload does not match the tick schema"

def ofWire (payload : String) : Except String Tick :=
  match ofWireText payload.toList with
  | .ok tick => .ok tick
  | .error fault => .error s!"{schemaMessage}: {fault.message payload.toList}"

end TickReplay.Tick
