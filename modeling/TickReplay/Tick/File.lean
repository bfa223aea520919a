import TickReplay.Csv.Record
import TickReplay.Decimal.Literal
import TickReplay.FileTree
import TickReplay.Text.Character
import TickReplay.Text.Integer
import TickReplay.Tick.Basic

/- Tick files: a header that names the columns, then one tick a row in file order. Loading is all or
   nothing; the first bad row decides the error, and rows count from one behind the header. -/
namespace TickReplay.Tick

inductive LoadError where
  | notFound (path : String)
  | unreadable (path : String) (cause : OsError)
  | directory
  | notText (record : Nat) (start : Csv.Position) (fault : Csv.FieldFault)
  | missingColumn (column : Field)
  | malformed (row : Nat) (column : Field) (value : String)
  deriving DecidableEq, Repr

def LoadError.message : LoadError → String
  | .notFound path => s!"tick file not found: {path}"
  | .unreadable path cause => s!"failed to read tick file {path}: {cause.message}"
  | .directory => s!"failed to parse tick file: {OsError.isDirectory.message}"
  | .notText record start fault =>
    s!"failed to parse tick file: CSV parse error: record {record} (line {start.line}, " ++
      s!"field: {fault.field}, byte: {start.byte}): invalid utf-8: " ++
      s!"invalid UTF-8 in field {fault.field} near byte index {fault.validUpTo}"
  | .missingColumn column => s!"tick file is missing required column `{column.name}`"
  | .malformed row column value =>
    s!"row {row}: column `{column.name}` has malformed value {Text.quoted value}"

structure Columns where
  timestamp : Nat
  symbol : Nat
  price : Nat
  volume : Nat
  deriving DecidableEq, Repr

def column (header : List (List Char)) (field : Field) : Except LoadError Nat :=
  match header.findIdx? fun name => name == field.name.toList with
  | some index => .ok index
  | none => .error (.missingColumn field)

def Columns.ofHeader (header : List (List Char)) : Except LoadError Columns := do
  let timestamp ← column header .timestamp
  let symbol ← column header .symbol
  let price ← column header .price
  let volume ← column header .volume
  return { timestamp, symbol, price, volume }

/-- A field as a value; blanks around it do not count, and a missing field reads as empty. -/
def cell {α : Type} (read : List Char → Option α) (row : Nat) (field : Field)
    (fields : List (List Char)) (index : Nat) : Except LoadError α :=
  let raw := fields[index]?.getD []
  match read (Text.trim raw) with
  | some value => .ok value
  | none => .error (.malformed row field (String.ofList raw))

def readFinite (cs : List Char) : Option Binary64 :=
  match Decimal.readLiteral cs with
  | .ok value => if value.isFinite then some value else none
  | .error _ => none

def ofRow (columns : Columns) (row : Nat) (fields : List (List Char)) : Except LoadError Tick := do
  let symbol := fields[columns.symbol]?.getD []
  if symbol.isEmpty then throw (.malformed row .symbol "")
  let timestamp ← cell Text.readInt64 row .timestamp fields columns.timestamp
  let price ← cell readFinite row .price fields columns.price
  let volume ← cell readFinite row .volume fields columns.volume
  return { timestamp, symbol := String.ofList symbol, price, volume }

def decodeRecord (index : Nat) (record : Csv.Record) : Except LoadError (List (List Char)) :=
  match record.decode with
  | .ok fields => .ok fields
  | .error fault => .error (.notText index record.start fault)

def ofRows (columns : Columns) (row : Nat) : List Csv.Record → Except LoadError (List Tick)
  | [] => .ok []
  | record :: more => do
    let fields ← decodeRecord row record
    let tick ← ofRow columns row fields
    return tick :: (← ofRows columns (row + 1) more)

def ofRecords : List Csv.Record → Except LoadError (List Tick)
  | [] => (Columns.ofHeader []).map fun _ => []
  | header :: rows => do
    let columns ← Columns.ofHeader (← decodeRecord 0 header)
    ofRows columns 1 rows

def ofBytes (bytes : List UInt8) : Except LoadError (List Tick) := ofRecords (Csv.records bytes)

def load (find : Lookup) (path : String) : Except LoadError (List Tick) :=
  match find path with
  | .ok (.file bytes) => ofBytes bytes
  | .ok .directory => .error .directory
  | .error .notFound => .error (.notFound path)
  | .error cause => .error (.unreadable path cause)

end TickReplay.Tick
