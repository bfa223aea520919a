import TickReplay.Text.Utf8

/- Records of comma-separated bytes. A quote is special at the start of a field only, a doubled one
   stands for itself inside, and what follows a closing quote is appended. Records end at either
   newline byte, so blank lines and the second byte of a pair are passed over between records. -/
namespace TickReplay.Csv

structure Position where
  byte : Nat
  line : Nat
  deriving DecidableEq, Repr

structure Record where
  fields : List (List UInt8)
  start : Position
  deriving DecidableEq, Repr

inductive Mode where
  | between
  | fresh
  | plain
  | quoted
  | closing
  deriving DecidableEq, Repr

/- Fields and records are kept newest first. -/
structure Scanner where
  mode : Mode
  field : List UInt8
  fields : List (List UInt8)
  records : List Record
  start : Position
  here : Position
  deriving DecidableEq, Repr

def comma : UInt8 := 44
def quote : UInt8 := 34
def newline : UInt8 := 10
def isTerminator (b : UInt8) : Bool := b == 10 || b == 13

def Position.pass (p : Position) (b : UInt8) : Position :=
  ⟨p.byte + 1, if b = newline then p.line + 1 else p.line⟩

def Scanner.endField (s : Scanner) : Scanner :=
  { s with mode := .fresh, field := [], fields := s.field.reverse :: s.fields }

def Scanner.endRecord (s : Scanner) : Scanner :=
  { s with
    mode := .between, field := [], fields := []
    records := ⟨(s.field.reverse :: s.fields).reverse, s.start⟩ :: s.records
    start := s.here }

def Scanner.put (s : Scanner) (mode : Mode) (b : UInt8) : Scanner :=
  { s with mode, field := b :: s.field }

def Scanner.outside (s : Scanner) (b : UInt8) : Scanner :=
  if b = comma then s.endField
  else if isTerminator b then s.endRecord
  else s.put .plain b

def Scanner.step (s : Scanner) (b : UInt8) : Scanner :=
  let s := { s with here := s.here.pass b }
  match s.mode with
  | .between =>
    if isTerminator b then s
    else if b = quote then { s with mode := .quoted }
    else s.outside b
  | .fresh => if b = quote then { s with mode := .quoted } else s.outside b
  | .plain => s.outside b
  | .quoted => if b = quote then { s with mode := .closing } else s.put .quoted b
  | .closing => if b = quote then s.put .quoted b else s.outside b

def Scanner.initial (byte : Nat) : Scanner := ⟨.between, [], [], [], ⟨0, 1⟩, ⟨byte, 1⟩⟩

/-- The end of the text ends a record that has begun, inside quotes too. -/
def Scanner.finish (s : Scanner) : List Record :=
  match s.mode with
  | .between => s.records.reverse
  | _ => s.endRecord.records.reverse

def byteOrderMark : List UInt8 := [0xEF, 0xBB, 0xBF]

def scanFrom (byte : Nat) (bytes : List UInt8) : List Record :=
  (bytes.foldl Scanner.step (Scanner.initial byte)).finish

/-- The records of a file. A leading byte order mark is dropped, but its bytes count. -/
def records (bytes : List UInt8) : List Record :=
  if bytes.take 3 = byteOrderMark then scanFrom 3 (bytes.drop 3) else scanFrom 0 bytes

structure FieldFault where
  field : Nat
  validUpTo : Nat
  deriving DecidableEq, Repr

def decodeFields (index : Nat) : List (List UInt8) → Except FieldFault (List (List Char))
  | [] => .ok []
  | bytes :: more =>
    match Utf8.decode bytes with
    | .ok text => (decodeFields (index + 1) more).map (text :: ·)
    | .error fault => .error ⟨index, fault.validUpTo⟩

def Record.decode (record : Record) : Except FieldFault (List (List Char)) :=
  decodeFields 0 record.fields

end TickReplay.Csv
