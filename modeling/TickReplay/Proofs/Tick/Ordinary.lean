import TickReplay.Proofs.Json.Ordinary
import TickReplay.Proofs.Tick.Wire

/- Ticks that a payload gives back bit for bit: those of ordinary prices and volumes. The reader's
   scaling is not correctly rounded in general, but it is on these. -/
namespace TickReplay.Tick

open Binary64 (units unitsPerOne infinityCode)
open Json (realText significantDigits)

/-- A zero, or a magnitude from 10^-8 up to but not including 10^15 that a payload writes with at most
    fifteen significant digits. -/
inductive Ordinary (x : Binary64) : Prop where
  | zero (none : x.isZero) : Ordinary x
  | sized (least : unitsPerOne ≤ units x.code * pow10 8)
      (most : units x.code < pow10 15 * unitsPerOne) (short : significantDigits (realText x) ≤ 15) :
      Ordinary x

variable {x : Binary64}

theorem lt_infinity_of_units_lt {code : Nat} (most : units code < pow10 15 * unitsPerOne) :
    code < infinityCode := by
  refine Nat.not_le.mp fun large => ?_
  have huge : pow10 15 * unitsPerOne ≤ units infinityCode := by decide +kernel
  have magnitudes := Binary64.units_le large
  omega

theorem Ordinary.finite (ordinary : Ordinary x) : x.isFinite := by
  refine decide_eq_true ?_
  cases ordinary with
  | zero none =>
    rw [eq_of_beq none]
    decide
  | sized _ most _ => exact lt_infinity_of_units_lt most

theorem Ordinary.reread (ordinary : Ordinary x) : Json.reread x.code = some x.code := by
  have finite := ordinary.finite
  cases ordinary with
  | zero none =>
    rw [eq_of_beq none]
    decide +kernel
  | sized least most short =>
    have nonzero : x.code ≠ 0 := by
      intro zero
      rw [zero, show units 0 = 0 from rfl, Nat.zero_mul] at least
      exact absurd least (Nat.not_le.mpr Decimal.unitsPerOne_pos)
    rw [Json.significantDigits_realText nonzero finite] at short
    have few := (Nat.length_toDigits_le_iff (b := 10) (by decide) (by decide)).mp short
    exact Json.reread_ordinary nonzero least most (of_decide_eq_true finite) few

theorem ofWire_wire_ordinary {t : Tick} (price : Ordinary t.price) (volume : Ordinary t.volume) :
    ofWire t.wire = .ok t := by
  rw [ofWire_wire_ok_iff price.finite volume.finite, rereadTick_self_iff price.finite volume.finite]
  exact ⟨price.reread, volume.reread⟩

/-- Fifteen whole digits, and a small negative number with an exponent. -/
theorem ofWire_wire_ordinary_extremes :
    let t : Tick := ⟨0, "AAPL", .ofCode false 0x42dc12218377de40, .ofCode true 0x3e8421f5f40d8376⟩
    realText t.price = "123456789012345.0".toList ∧ realText t.volume = "-1.5e-7".toList ∧
      Ordinary t.price ∧ Ordinary t.volume ∧ ofWire t.wire = .ok t := by
  intro t
  have price : Ordinary t.price := .sized (by decide +kernel) (by decide +kernel) (by decide +kernel)
  have volume : Ordinary t.volume := .sized (by decide +kernel) (by decide +kernel) (by decide +kernel)
  exact ⟨by decide +kernel, by decide +kernel, price, volume, ofWire_wire_ordinary price volume⟩

/- Above the range, fifteen digits are not enough: 7500000000000020.0 comes back as another number. -/
example :
    let x : Binary64 := .ofCode false 0x433aa535d3d0c014
    realText x = "7500000000000020.0".toList ∧ significantDigits (realText x) = 15 ∧
      Json.reread x.code ≠ some x.code := by
  decide +kernel

end TickReplay.Tick
