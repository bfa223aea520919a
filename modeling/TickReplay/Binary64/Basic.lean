/- Binary64 values as a sign and a magnitude code, and the sizes of machine words. Codes below
   `infinityCode` are the finite magnitudes in increasing order, codes above it are not numbers. A
   finite magnitude is a whole number of least units of 2^-1074. `nearest` is the only rounding step:
   every operation forms its exact rational result in least units and passes it through. Exception
   flags and other formats are out of scope. -/
namespace TickReplay

def word16 : Nat := 65536
def word32 : Nat := 4294967296
def word64 : Nat := 18446744073709551616
def half32 : Nat := word32 / 2
def half64 : Nat := word64 / 2

def pow2 (n : Nat) : Nat := Nat.pow 2 n
def pow10 (n : Nat) : Nat := Nat.pow 10 n

structure Binary64 where
  negative : Bool
  code : Nat
  code_lt : code < half64
  deriving DecidableEq, Repr

namespace Binary64

/-- The fractions of one stored exponent, 2^52 of them. -/
def fractions : Nat := 4503599627370496

def infinityCode : Nat := 2047 * fractions

/- The stored exponent selects a scale; the two lowest ones share the scale 0. -/
def scale (code : Nat) : Nat := code / fractions - 1

def significand (code : Nat) : Nat :=
  if code < fractions then code else fractions + code % fractions

def units (code : Nat) : Nat := significand code * pow2 (scale code)

@[irreducible]
def unitsPerOne : Nat := pow2 1074

/-- Codes past infinity are clamped to it, so the result is a number. -/
def ofCode (negative : Bool) (code : Nat) : Binary64 :=
  ⟨negative, min code infinityCode, Nat.lt_of_le_of_lt (Nat.min_le_right _ _) (by decide)⟩

def infinity (negative : Bool) : Binary64 := ofCode negative infinityCode
def zero (negative : Bool) : Binary64 := ofCode negative 0
def nan (negative : Bool) : Binary64 := ⟨negative, infinityCode + fractions / 2, by decide⟩

def neg (x : Binary64) : Binary64 := { x with negative := !x.negative }

def isNaN (x : Binary64) : Bool := decide (infinityCode < x.code)
def isFinite (x : Binary64) : Bool := decide (x.code < infinityCode)
def isZero (x : Binary64) : Bool := x.code == 0

/-- Numeric equality: no NaN equals anything, and the two zeros are equal. -/
def equal (x y : Binary64) : Bool :=
  !x.isNaN && !y.isNaN && x.code == y.code && (x.negative == y.negative || x.code == 0)

/-- The integer nearest to num / den, the even one of two equally near. -/
def roundDiv (num den : Nat) : Nat :=
  if 2 * (num % den) < den then num / den
  else if den < 2 * (num % den) then num / den + 1
  else num / den + num / den % 2

/-- The code nearest to num / den units. A significand that rounds up to 2^53 carries into the
    exponent by the addition itself, and everything too large becomes infinity. -/
def nearest (num den : Nat) : Nat :=
  let shift := (num / den).log2 - 52
  min infinityCode (shift * fractions + roundDiv num (den * pow2 shift))

def mul (a b : Nat) : Nat := nearest (units a * units b) unitsPerOne
def div (a b : Nat) : Nat := nearest (units a * unitsPerOne) (units b)
def ofNat (n : Nat) : Nat := nearest (n * unitsPerOne) 1

def ofDecimal (coefficient : Nat) (exponent : Int) : Nat :=
  nearest (coefficient * pow10 exponent.toNat * unitsPerOne) (pow10 (-exponent).toNat)

end Binary64
end TickReplay
