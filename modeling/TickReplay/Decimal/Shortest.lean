import TickReplay.Binary64.Basic
import TickReplay.Decimal.Basic

/- Shortest decimals that read back. Grids of 1, 2, ... 17 digits are tried in turn; on each only
   the two neighbours of the value can matter, so both are read back and the nearer hit is taken.
   Which neighbour wins an exact tie is the caller's choice. -/
namespace TickReplay.Decimal

inductive Tie where
  | toEven
  | upward
  deriving DecidableEq, Repr

def log10Fuel : Nat → Nat → Nat
  | 0, _ => 0
  | fuel + 1, n => if n < 10 then 0 else log10Fuel fuel (n / 10) + 1

/-- The number of digits of n, less one; there are never more digits than binary ones. -/
def log10 (n : Nat) : Nat := log10Fuel n.log2 n

/-- The power of ten of the first digit of a positive finite magnitude. Every such magnitude is at
    least 10^-324, so scaling by 10^324 loses no digit in front of the point. -/
def leading (code : Nat) : Int :=
  (log10 (Binary64.units code * pow10 324 / Binary64.unitsPerOne) : Int) - 324

def Reads (code : Nat) (coefficient : Nat) (exponent : Int) : Prop :=
  Binary64.ofDecimal coefficient exponent = code

instance (code coefficient : Nat) (exponent : Int) : Decidable (Reads code coefficient exponent) :=
  inferInstanceAs (Decidable (_ = _))

@[irreducible]
def gridNum (code : Nat) (exponent : Int) : Nat := Binary64.units code * pow10 (-exponent).toNat

@[irreducible]
def gridDen (exponent : Int) : Nat := Binary64.unitsPerOne * pow10 exponent.toNat

def nearer (tie : Tie) (num den : Nat) : Nat :=
  let below := num / den
  if 2 * (num % den) < den then below
  else if den < 2 * (num % den) then below + 1
  else match tie with
    | .toEven => below + below % 2
    | .upward => below + 1

def onGrid (tie : Tie) (code : Nat) (exponent : Int) : Option Nat :=
  let below := gridNum code exponent / gridDen exponent
  if Reads code below exponent then
    if Reads code (below + 1) exponent then some (nearer tie (gridNum code exponent) (gridDen exponent))
    else some below
  else if Reads code (below + 1) exponent then some (below + 1)
  else none

/- Rounding up to a power of ten shortens the numeral by moving to the next grid. -/
def trimmed (coefficient : Nat) (exponent : Int) : Decimal :=
  if coefficient % 10 = 0 then ⟨coefficient / 10, exponent + 1⟩ else ⟨coefficient, exponent⟩

def found (tie : Tie) (code k : Nat) : Option Decimal :=
  (onGrid tie code (leading code - k)).map fun coefficient =>
    trimmed coefficient (leading code - k)

/-- Seventeen digits always read back. -/
def finest (tie : Tie) (code : Nat) : Decimal :=
  ⟨nearer tie (gridNum code (leading code - 16)) (gridDen (leading code - 16)), leading code - 16⟩

def shortest (tie : Tie) (code : Nat) : Decimal :=
  if code = 0 then ⟨0, 0⟩
  else ((List.range 16).findSome? (found tie code)).getD (finest tie code)

/-- The value written out in full; of two nearest shortest decimals the upper one is taken. -/
def plainText (x : Binary64) : String :=
  if x.isNaN then "NaN"
  else
    (if x.negative then "-" else "") ++
      if x.isFinite then String.ofList ((shortest .upward x.code).positional []) else "inf"

end TickReplay.Decimal
