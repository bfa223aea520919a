import TickReplay.Binary64.Basic

/- Decimal literals as typed by people: an optional sign, then digits with an optional point and
   exponent, or a name of infinity or of no number. Reading rounds the exact value once. -/
namespace TickReplay.Decimal

inductive LiteralError where
  | empty
  | invalid
  deriving DecidableEq, Repr

def LiteralError.message : LiteralError → String
  | .empty => "cannot parse float from empty string"
  | .invalid => "invalid float literal"

def digitValue (c : Char) : Nat := c.toNat - '0'.toNat
def natOfDigits (ds : List Char) : Nat := ds.foldl (fun n c => 10 * n + digitValue c) 0

/-- Magnitudes whose first digit lies beyond 10^400 or 10^-400 need no exact arithmetic. -/
def readMagnitude (ds : List Char) (exponent : Int) : Nat :=
  let coefficient := natOfDigits ds
  let significant := (ds.dropWhile (· == '0')).length
  if coefficient = 0 then 0
  else if (significant : Int) + exponent > 400 then Binary64.infinityCode
  else if (significant : Int) + exponent < -400 then 0
  else Binary64.ofDecimal coefficient exponent

/-- The value of exponent digits. It stops growing where no written magnitude can make up for it. -/
def exponentOfDigits (ds : List Char) : Nat :=
  ds.foldl (fun n c => if n < word16 then 10 * n + digitValue c else n) 0

def splitSign : List Char → Bool × List Char
  | '-' :: rest => (true, rest)
  | '+' :: rest => (false, rest)
  | rest => (false, rest)

def readExponent : List Char → Option Int
  | [] => some 0
  | e :: rest =>
    if e == 'e' || e == 'E' then
      let (negative, ds) := splitSign rest
      if ds.isEmpty || !ds.all Char.isDigit then none
      else some (if negative then -exponentOfDigits ds else exponentOfDigits ds)
    else none

def readNumber (cs : List Char) : Option Nat :=
  let whole := cs.takeWhile Char.isDigit
  let afterWhole := cs.dropWhile Char.isDigit
  let (fraction, tail) := match afterWhole with
    | '.' :: rest => (rest.takeWhile Char.isDigit, rest.dropWhile Char.isDigit)
    | rest => ([], rest)
  if whole.isEmpty && fraction.isEmpty then none
  else (readExponent tail).map fun e => readMagnitude (whole ++ fraction) (e - fraction.length)

def readUnsigned (cs : List Char) : Option (Bool → Binary64) :=
  let name := String.ofList (cs.map Char.toLower)
  if name = "inf" || name = "infinity" then some Binary64.infinity
  else if name = "nan" then some Binary64.nan
  else (readNumber cs).map fun code negative => Binary64.ofCode negative code

def readLiteral (cs : List Char) : Except LiteralError Binary64 :=
  if cs.isEmpty then .error .empty
  else
    let (negative, rest) := splitSign cs
    match readUnsigned rest with
    | some value => .ok (value negative)
    | none => .error .invalid

end TickReplay.Decimal
