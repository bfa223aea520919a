import TickReplay.Decimal.Basic
import TickReplay.Json.Text

/- One observation of an instrument and its two texts. On the wire it is one compact JSON object with
   the four members in declaration order. In a table it is a row of right-aligned columns, with four
   places for the price and the volume; a text wider than its column is written in full. -/
namespace TickReplay

structure Tick where
  timestamp : Int64
  symbol : String
  price : Binary64
  volume : Binary64
  deriving DecidableEq, Repr

namespace Tick

inductive Field where
  | timestamp
  | symbol
  | price
  | volume
  deriving DecidableEq, Repr

def Field.name : Field → String
  | .timestamp => "timestamp_ms"
  | .symbol => "symbol"
  | .price => "price"
  | .volume => "volume"

/-- In the order of declaration, which is the order on the wire. -/
def Field.all : List Field := [.timestamp, .symbol, .price, .volume]

def Field.named? (name : String) : Option Field := all.find? fun field => field.name = name

/-- Equality of values: no NaN equals anything, and the two zeros are equal. -/
def equal (a b : Tick) : Bool :=
  a.timestamp == b.timestamp && a.symbol == b.symbol && a.price.equal b.price &&
    a.volume.equal b.volume

def memberText (field : Field) (value : List Char) : List Char :=
  Json.stringText field.name.toList ++ ':' :: value

def valueText (tick : Tick) : Field → List Char
  | .timestamp => Json.integerText tick.timestamp.toInt
  | .symbol => Json.stringText tick.symbol.toList
  | .price => Json.realText tick.price
  | .volume => Json.realText tick.volume

def wireText (tick : Tick) : List Char :=
  '\x7b' :: List.intercalate [','] (Field.all.map fun f => memberText f (tick.valueText f))
    ++ ['\x7d']

def wire (tick : Tick) : String := String.ofList tick.wireText

def aligned (width : Nat) (cs : List Char) : List Char :=
  List.replicate (width - cs.length) ' ' ++ cs

def places : Nat := 4

def columnTexts (tick : Tick) : List (List Char) :=
  [aligned 16 (Json.integerText tick.timestamp.toInt), aligned 12 tick.symbol.toList,
   aligned 12 (Decimal.fixed places tick.price), aligned 12 (Decimal.fixed places tick.volume)]

def row (tick : Tick) : String :=
  String.ofList (List.intercalate " | ".toList tick.columnTexts)

end Tick
end TickReplay
