import TickReplay.Binary64.Basic
import TickReplay.Decimal.Literal

/- Integers as typed by people: an optional sign and decimal digits, nothing else. -/
namespace TickReplay.Text

inductive IntegerError where
  | empty
  | invalidDigit
  | tooLarge
  deriving DecidableEq, Repr

def IntegerError.message : IntegerError → String
  | .empty => "cannot parse integer from empty string"
  | .invalidDigit => "invalid digit found in string"
  | .tooLarge => "number too large to fit in target type"

/- The first digit that cannot be taken decides the error. -/
def readDigits (limit : Nat) : Nat → List Char → Except IntegerError Nat
  | n, [] => .ok n
  | n, c :: rest =>
    if !c.isDigit then .error .invalidDigit
    else if limit < 10 * n + Decimal.digitValue c then .error .tooLarge
    else readDigits limit (10 * n + Decimal.digitValue c) rest

def readCount (limit : Nat) : List Char → Except IntegerError Nat
  | [] => .error .empty
  | ['+'] => .error .invalidDigit
  | '+' :: rest => readDigits limit 0 rest
  | cs => readDigits limit 0 cs

def readInt64 (cs : List Char) : Option Int64 :=
  let (negative, ds) := Decimal.splitSign cs
  if ds.isEmpty || !ds.all Char.isDigit then none
  else
    let n := Decimal.natOfDigits ds
    if negative then if n ≤ half64 then some (Int64.ofInt (-n)) else none
    else if n < half64 then some (Int64.ofInt n) else none

end TickReplay.Text
