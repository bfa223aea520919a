import TickReplay.Proofs.Json.Denotation

/- What a literal is scaled to. Whatever digits and exponent it has, the scaling comes to an end, and
   what it leaves is finite or refused. -/
namespace TickReplay.Json

open Binary64 (infinityCode)

theorem div_power_le {code : Nat} (bounded : code ≤ infinityCode) (n : Nat) :
    Binary64.div code (power n) ≤ code := by
  have one : Binary64.units (power 0) = Binary64.unitsPerOne := by decide +kernel
  calc
    Binary64.div code (power n) ≤ Binary64.div code (power 0) :=
      Binary64.div_le (power_pos 0) (Nat.le_refl code) (power_le (Nat.zero_le n))
    _ = Binary64.nearest (Binary64.units code) 1 := by
      rw [Binary64.div, one]
      exact Binary64.nearest_congr Decimal.unitsPerOne_pos Nat.one_pos (Nat.mul_one _)
    _ = code := Binary64.nearest_units bounded

theorem lowered_le {code : Nat} (bounded : code ≤ infinityCode) (steps : Nat) :
    lowered code steps ≤ code := by
  induction steps generalizing code with
  | zero => exact Nat.le_refl code
  | succ steps ih =>
    rw [lowered]
    split
    · exact Nat.zero_le code
    · have step := div_power_le bounded 308
      exact Nat.le_trans (ih (Nat.le_trans step bounded)) step

theorem scaled_finite {significand : Nat} (fits : significand ≤ wordLimit) {exponent : Int}
    {code : Nat} (scale : scaled significand exponent = some code) : code < infinityCode := by
  have zero : 0 < infinityCode := by decide
  have most : Binary64.ofNat wordLimit < infinityCode := by decide +kernel
  cases exponent with
  | ofNat n =>
    by_cases small : n ≤ 308
    · have bounded : Binary64.mul (Binary64.ofNat significand) (power n) ≤ infinityCode :=
        Nat.min_le_left _ _
      rw [Int.ofNat_eq_natCast, scaled_power significand small] at scale
      split at scale
      · cases scale
      · cases scale
        omega
    · change (if n ≤ 308 then _ else if significand = 0 then some 0 else none) = _ at scale
      rw [if_neg small] at scale
      split at scale
      · cases scale
        exact zero
      · cases scale
  | negSucc n =>
    have word : Binary64.ofNat significand < infinityCode :=
      Nat.lt_of_le_of_lt (Binary64.ofNat_le fits) most
    have steps := lowered_le (Nat.le_of_lt word) (n / 308)
    have last := div_power_le (Nat.le_trans steps (Nat.le_of_lt word)) (n % 308 + 1)
    cases scale
    omega

theorem Literal.Converts.finite {l : Literal} {code : Nat} (converts : l.Converts code) :
    code < infinityCode := by
  cases converts with
  | scaled whole fraction small scale =>
    refine scaled_finite ?_ scale
    rw [Nat.ofDigitChars_append]
    exact fraction.fits
  | vanished => decide

/-- The scaling of a magnitude in turns, none if it has not ended by then. An exponent that the table of
    powers lacks ends it at zero or upwards, and is raised by a division otherwise. -/
def scaleTurns : Nat → Nat → Int → Option (Option Nat)
  | 0, _, _ => none
  | turns + 1, code, exponent =>
    if exponent.natAbs ≤ 308 then
      if 0 ≤ exponent then
        let product := Binary64.mul code (power exponent.natAbs)
        some (if product = infinityCode then none else some product)
      else some (some (Binary64.div code (power exponent.natAbs)))
    else if code = 0 then some (some 0)
    else if 0 ≤ exponent then some none
    else scaleTurns turns (Binary64.div code (power 308)) (exponent + 308)

theorem div_zero_power (n : Nat) : Binary64.div 0 (power n) = 0 :=
  Nat.le_zero.mp (div_power_le (Nat.zero_le infinityCode) n)

theorem lowered_zero (steps : Nat) : lowered 0 steps = 0 :=
  Nat.le_zero.mp (lowered_le (Nat.zero_le infinityCode) steps)

theorem scaleTurns_down {turns code steps : Nat} (enough : steps ≤ turns ∨ lowered code turns = 0)
    {places : Nat} (small : places < 308) :
    scaleTurns (turns + 1) code (.negSucc (308 * steps + places)) =
      some (some (Binary64.div (lowered code steps) (power (places + 1)))) := by
  -- Each division takes one turn and one step, and the last turn needs either no step or a zero.
  induction turns generalizing code steps with
  | zero =>
    rcases Nat.eq_zero_or_pos steps with rfl | some
    · have near : (Int.negSucc (308 * 0 + places)).natAbs = places + 1 := by omega
      have down : ¬ (0 : Int) ≤ .negSucc (308 * 0 + places) := by omega
      rw [scaleTurns, near, if_pos (by omega), if_neg down, lowered]
    · have zero : code = 0 := enough.resolve_left (by omega)
      have far : ¬ (Int.negSucc (308 * steps + places)).natAbs ≤ 308 := by omega
      rw [scaleTurns, if_neg far, if_pos zero, zero, lowered_zero, div_zero_power]
  | succ turns ih =>
    cases steps with
    | zero =>
      have near : (Int.negSucc (308 * 0 + places)).natAbs = places + 1 := by omega
      have down : ¬ (0 : Int) ≤ .negSucc (308 * 0 + places) := by omega
      rw [scaleTurns, near, if_pos (by omega), if_neg down, lowered]
    | succ steps =>
      have far : ¬ (Int.negSucc (308 * (steps + 1) + places)).natAbs ≤ 308 := by omega
      have down : ¬ (0 : Int) ≤ .negSucc (308 * (steps + 1) + places) := by omega
      by_cases zero : code = 0
      · rw [scaleTurns, if_neg far, if_pos zero, zero, lowered_zero, div_zero_power]
      · have raised : Int.negSucc (308 * (steps + 1) + places) + 308 =
            .negSucc (308 * steps + places) := by omega
        rw [lowered, if_neg zero] at enough
        rw [scaleTurns, if_neg far, if_neg zero, if_neg down, raised, lowered, if_neg zero]
        exact ih (enough.imp Nat.le_of_succ_le_succ id)

theorem scaleTurns_up (turns significand n : Nat) :
    scaleTurns (turns + 1) (Binary64.ofNat significand) n = some (scaled significand n) := by
  have up : (0 : Int) ≤ n := Int.natCast_nonneg n
  have whole : scaled significand (n : Nat) = if n ≤ 308 then
      if Binary64.mul (Binary64.ofNat significand) (power n) = infinityCode then none
      else some (Binary64.mul (Binary64.ofNat significand) (power n))
    else if significand = 0 then some 0 else none := rfl
  have zero : Binary64.ofNat significand = 0 ↔ significand = 0 := by
    constructor
    · intro none
      exact Nat.eq_zero_of_not_pos fun positive => Nat.ne_of_gt (ofNat_pos positive) none
    · rintro rfl
      decide +kernel
  rw [scaleTurns, whole, Int.natAbs_natCast, if_pos up]
  by_cases small : n ≤ 308
  · rw [if_pos small, if_pos small]
  · rw [if_neg small, if_neg small, if_pos up, apply_ite some]
    simp only [zero]

/-- A significand of one word is scaled in three turns at most, by whatever exponent: two divisions leave
    nothing of it. -/
theorem scaleTurns_word {significand : Nat} (fits : significand ≤ wordLimit) (exponent : Int) :
    scaleTurns 3 (Binary64.ofNat significand) exponent = some (scaled significand exponent) := by
  have most : Binary64.div (Binary64.div (Binary64.ofNat wordLimit) (power 308)) (power 308) = 0 := by
    decide +kernel
  have vanished : lowered (Binary64.ofNat significand) 2 = 0 := by
    have once := Binary64.div_le (power_pos 308) (Binary64.ofNat_le fits) (Nat.le_refl (power 308))
    have twice := Binary64.div_le (power_pos 308) once (Nat.le_refl (power 308))
    simp only [lowered]
    split
    · rfl
    · split
      · rfl
      · omega
  cases exponent with
  | ofNat n => exact scaleTurns_up 2 significand n
  | negSucc n =>
    have enough : n / 308 ≤ 2 ∨ lowered (Binary64.ofNat significand) 2 = 0 := .inr vanished
    have turns := scaleTurns_down enough (Nat.mod_lt n (by decide))
    rw [Nat.div_add_mod] at turns
    exact turns

end TickReplay.Json
