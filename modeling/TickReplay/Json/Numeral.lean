import TickReplay.Binary64.Basic
import TickReplay.Decimal.Literal
import TickReplay.Json.Fault

/- Reading numerals. The digits go into a significand of one 64-bit word; whole digits beyond it
   only raise the exponent and fraction digits beyond it are dropped. The significand is then scaled
   by powers of ten in binary64 arithmetic, so the value is close to the numeral, not always the
   nearest. -/
namespace TickReplay.Json

def wordLimit : Nat := word64 - 1
def exponentLimit : Nat := half32 - 1

open Decimal (digitValue)

/-- The significand, the count of whole digits beyond the word, and the rest. -/
def wholeDigits (significand excess : Nat) : List Char → Nat × Nat × List Char
  | [] => (significand, excess, [])
  | c :: rest =>
    if !c.isDigit then (significand, excess, c :: rest)
    else if excess = 0 ∧ 10 * significand + digitValue c ≤ wordLimit then
      wholeDigits (10 * significand + digitValue c) 0 rest
    else wholeDigits significand (excess + 1) rest

def fractionDigits (significand places : Nat) : List Char → Nat × Nat × List Char
  | [] => (significand, places, [])
  | c :: rest =>
    if !c.isDigit then (significand, places, c :: rest)
    else if 10 * significand + digitValue c ≤ wordLimit then
      fractionDigits (10 * significand + digitValue c) (places + 1) rest
    else (significand, places, rest.dropWhile Char.isDigit)

/-- An exponent beyond 32 bits stops at the digit that passes the limit. -/
def exponentDigits (exponent : Nat) : List Char → Except (List Char) (Nat × List Char)
  | [] => .ok (exponent, [])
  | c :: rest =>
    if !c.isDigit then .ok (exponent, c :: rest)
    else if 10 * exponent + digitValue c ≤ exponentLimit then
      exponentDigits (10 * exponent + digitValue c) rest
    else .error rest

def power (n : Nat) : Nat := Binary64.ofNat (pow10 n)

def lowered (code : Nat) : Nat → Nat
  | 0 => code
  | steps + 1 => if code = 0 then 0 else lowered (Binary64.div code (power 308)) steps

def scaled (significand : Nat) : Int → Option Nat
  | .ofNat n =>
    if n ≤ 308 then
      let product := Binary64.mul (Binary64.ofNat significand) (power n)
      if product = Binary64.infinityCode then none else some product
    else if significand = 0 then some 0
    else none
  | .negSucc n =>
    some (Binary64.div (lowered (Binary64.ofNat significand) (n / 308)) (power (n % 308 + 1)))

def scaledNumber (negative : Bool) (significand : Nat) (exponent : Int) (rest : List Char) :
    Except Fault (Number × List Char) :=
  match scaled significand exponent with
  | some code => .ok (.real (Binary64.ofCode negative code), rest)
  | none => .error (.here .numberOutOfRange rest)

def readExponent (negative : Bool) (significand : Nat) (exponent : Int) (cs : List Char) :
    Except Fault (Number × List Char) :=
  match Decimal.splitSign cs with
  | (_, []) => .error (.here .endOfValue [])
  | (downward, c :: rest) =>
    if !c.isDigit then .error (.next .invalidNumber (c :: rest))
    else match exponentDigits (digitValue c) rest with
      | .ok (shift, rest) =>
        scaledNumber negative significand (if downward then exponent - shift else exponent + shift)
          rest
      | .error rest =>
        if significand ≠ 0 ∧ downward = false then .error (.here .numberOutOfRange rest)
        else .ok (.real (Binary64.zero negative), rest.dropWhile Char.isDigit)

def isExponentMark (c : Char) : Bool := c == 'e' || c == 'E'

def readFraction (negative : Bool) (significand excess : Nat) (cs : List Char) :
    Except Fault (Number × List Char) :=
  match cs with
  | [] => .error (.here .endOfValue [])
  | c :: _ =>
    if !c.isDigit then .error (.next .invalidNumber cs)
    else
      let (significand, places, rest) := fractionDigits significand 0 cs
      let exponent := (excess : Int) - places
      match rest with
      | [] => scaledNumber negative significand exponent []
      | e :: more =>
        if isExponentMark e then readExponent negative significand exponent more
        else scaledNumber negative significand exponent rest

def wholeNumber (negative : Bool) (n : Nat) : Number :=
  if !negative then .integer n
  else if 0 < n ∧ n ≤ half64 then .integer (-n)
  else .real (Binary64.ofCode true (Binary64.ofNat n))

def readAfterWhole (negative : Bool) (significand excess : Nat) (rest : List Char) :
    Except Fault (Number × List Char) :=
  let whole :=
    if excess = 0 then .ok (wholeNumber negative significand, rest)
    else scaledNumber negative significand excess rest
  match rest with
  | [] => whole
  | c :: more =>
    if c = '.' then readFraction negative significand excess more
    else if isExponentMark c then readExponent negative significand excess more
    else whole

def readUnsigned (negative : Bool) : List Char → Except Fault (Number × List Char)
  | [] => .error (.here .endOfValue [])
  | c :: rest =>
    if !c.isDigit then .error (.next .invalidNumber (c :: rest))
    else if c = '0' then
      match rest with
      | [] => readAfterWhole negative 0 0 []
      | d :: more =>
        if d.isDigit then .error (.next .invalidNumber rest)
        else readAfterWhole negative 0 0 (d :: more)
    else
      let (significand, excess, rest) := wholeDigits (digitValue c) 0 rest
      readAfterWhole negative significand excess rest

def readNumeral : List Char → Except Fault (Number × List Char)
  | '-' :: rest => readUnsigned true rest
  | cs => readUnsigned false cs

def startsNumeral (c : Char) : Bool := c == '-' || c.isDigit

end TickReplay.Json
