import TickReplay.Binary64.Basic

/- Decimal numerals coefficient * 10^exponent and their two written forms, which take the digits from
   the coefficient and only place the point. Fixed-point text rounds the exact binary value to a
   number of places, ties to even. -/
namespace TickReplay

structure Decimal where
  coefficient : Nat
  exponent : Int
  deriving DecidableEq, Repr

namespace Decimal

def digits (x : Decimal) : List Char := Nat.toDigits 10 x.coefficient

/-- The power of ten of the first digit. -/
def order (x : Decimal) : Int := x.digits.length - 1 + x.exponent

def positional (whole : List Char) (x : Decimal) : List Char :=
  match x.exponent with
  | .ofNat zeros => x.digits ++ List.replicate zeros '0' ++ whole
  | .negSucc below =>
    let places := below + 1
    let ds := x.digits
    if places < ds.length then
      ds.take (ds.length - places) ++ '.' :: ds.drop (ds.length - places)
    else
      '0' :: '.' :: (List.replicate (places - ds.length) '0' ++ ds)

def scientific (x : Decimal) : List Char :=
  let mantissa := match x.digits with
    | [] => []
    | [d] => [d]
    | d :: more => d :: '.' :: more
  let sign := if x.order < 0 then '-' else '+'
  mantissa ++ 'e' :: sign :: Nat.toDigits 10 x.order.natAbs

def rounded (places code : Nat) : Nat :=
  Binary64.roundDiv (Binary64.units code * pow10 places) Binary64.unitsPerOne

def padded (width : Nat) (ds : List Char) : List Char :=
  List.replicate (width - ds.length) '0' ++ ds

def withPlaces (places n : Nat) : List Char :=
  Nat.toDigits 10 (n / pow10 places) ++
    '.' :: padded places (Nat.toDigits 10 (n % pow10 places))

def fixed (places : Nat) (x : Binary64) : List Char :=
  if x.isNaN then "NaN".toList
  else
    (if x.negative then ['-'] else []) ++
      if x.isFinite then withPlaces places (rounded places x.code) else "inf".toList

end Decimal
end TickReplay
