import TickReplay.Decimal.Shortest

/- Number values and their compact text: the shortest decimal that reads back, written out where
   its first digit lies from 10^-5 up to 10^15 and with an exponent elsewhere. -/
namespace TickReplay.Json

inductive Number where
  | integer (value : Int)
  | real (value : Binary64)
  deriving DecidableEq, Repr

def IsPlain (order : Int) : Prop := -5 ≤ order ∧ order < 16

instance (order : Int) : Decidable (IsPlain order) := inferInstanceAs (Decidable (_ ∧ _))

def magnitudeText (code : Nat) : List Char :=
  let decimal := Decimal.shortest .toEven code
  if IsPlain decimal.order then decimal.positional ['.', '0'] else decimal.scientific

def realText (x : Binary64) : List Char :=
  if x.isFinite then (if x.negative then ['-'] else []) ++ magnitudeText x.code
  else "null".toList

def integerText (n : Int) : List Char :=
  (if n < 0 then ['-'] else []) ++ Nat.toDigits 10 n.natAbs

def Number.text : Number → List Char
  | .integer n => integerText n
  | .real x => realText x

end TickReplay.Json
