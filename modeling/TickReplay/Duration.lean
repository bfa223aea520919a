import TickReplay.Binary64.Basic
import TickReplay.Decimal.Shortest

/- Lengths of time in seconds and nanoseconds, and their reading from a binary64 number of
   seconds. -/
namespace TickReplay

structure Duration where
  seconds : Nat
  nanos : Nat
  nanos_lt : nanos < 1000000000
  deriving DecidableEq, Repr

namespace Duration

def total (d : Duration) : Nat := d.seconds * 1000000000 + d.nanos

def millis (d : Duration) : Nat := d.seconds * 1000 + d.nanos / 1000000

def ofMillis (n : Nat) : Duration := ⟨n / 1000, n % 1000 * 1000000, by omega⟩

def secondsLimit : Nat := word64

/-- The fraction is rounded to the nearest nanosecond, ties to even, and may carry into the seconds.
    Refused are values below zero, values of 2^64 or more, and what is not a number. -/
def ofSeconds? (value : Binary64) : Option Duration :=
  let units := Binary64.units value.code
  let whole := units / Binary64.unitsPerOne
  let nanos := Binary64.roundDiv (units % Binary64.unitsPerOne * 1000000000) Binary64.unitsPerOne
  if !value.isFinite || (value.negative && !value.isZero) then none
  else if secondsLimit ≤ whole then none
  else if h : nanos < 1000000000 then some ⟨whole, nanos, h⟩
  else some ⟨whole + 1, 0, by decide⟩

end Duration
end TickReplay
