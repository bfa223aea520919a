import TickReplay.Proofs.Decimal.Neighbour
import TickReplay.Proofs.Json.RealText

/- No finite magnitude is lost on the way through its own digits: what they are scaled to neither
   overflows nor collapses to zero. Scaling keeps the order, so it is enough to scale the ends of
   each range of exponents. -/
namespace TickReplay.Json

open Binary64 (infinityCode unitsPerOne units mul div ofDecimal ofNat_le mul_le div_le)

theorem power_le {m n : Nat} (le : m ≤ n) : power m ≤ power n :=
  ofNat_le (Nat.pow_le_pow_right (by decide) le)

theorem ofNat_pos {n : Nat} (positive : 0 < n) : 0 < Binary64.ofNat n := by
  have one : 0 < Binary64.ofNat 1 := by decide +kernel
  have least : Binary64.ofNat 1 ≤ Binary64.ofNat n := ofNat_le positive
  omega

theorem power_pos (n : Nat) : power n ≠ 0 := Nat.ne_of_gt (ofNat_pos (Decimal.pow10_pos n))

/-- The least coefficient that a magnitude can have at the exponent -309 - i. -/
def leastCoefficient (i : Nat) : Nat := max 1 (pow10 (309 + i) / unitsPerOne)

/-- The greatest coefficient at 10^292 that scales to a finite magnitude. -/
def greatestCoefficient : Nat := 17976931348623157

structure RangeEnds : Prop where
  least_up : 0 < mul (Binary64.ofNat 1) (power 0)
  most_up : mul (Binary64.ofNat (pow10 17)) (power 291) < infinityCode
  most_far_up : ∀ i ≤ 16,
    mul (Binary64.ofNat (greatestCoefficient / pow10 i)) (power (292 + i)) < infinityCode
  beyond_far_up : ∀ i ≤ 16,
    ofDecimal (greatestCoefficient / pow10 (i + 1) + 1) (292 + (i + 1) : Nat) = infinityCode
  last : reread (infinityCode - 1) = some (infinityCode - 1)
  last_but_one : units (infinityCode - 2) / (unitsPerOne * pow10 292) + 1 ≤ greatestCoefficient
  least_down : 0 < div (Binary64.ofNat 1) (power 308)
  most_down : div (Binary64.ofNat wordLimit) (power 1) < infinityCode
  least_far_down : ∀ i < 32,
    0 < div (div (Binary64.ofNat (leastCoefficient i)) (power 308)) (power (i + 1))
  most_far_down : div (div (Binary64.ofNat wordLimit) (power 308)) (power 1) < infinityCode

theorem rangeEnds : RangeEnds where
  least_up := by decide +kernel
  most_up := by decide +kernel
  most_far_up := by decide +kernel
  beyond_far_up := by decide +kernel
  last := by decide +kernel
  last_but_one := by decide +kernel
  least_down := by decide +kernel
  most_down := by decide +kernel
  least_far_down := by decide +kernel
  most_far_down := by decide +kernel

def Kept (result : Option Nat) : Prop := ∃ code, result = some code ∧ 0 < code ∧ code < infinityCode

theorem scaled_power (c : Nat) {n : Nat} (small : n ≤ 308) : scaled c n =
    if mul (Binary64.ofNat c) (power n) = infinityCode then none
    else some (mul (Binary64.ofNat c) (power n)) := by
  change (if n ≤ 308 then _ else _) = _
  rw [if_pos small]

theorem scaled_up {c n : Nat} (small : n ≤ 308)
    (fits : mul (Binary64.ofNat c) (power n) < infinityCode) (positive : 0 < c) :
    Kept (scaled c n) := by
  refine ⟨mul (Binary64.ofNat c) (power n), ?_, ?_, fits⟩
  · rw [scaled_power c small, if_neg (Nat.ne_of_lt fits)]
  · exact Nat.lt_of_lt_of_le rangeEnds.least_up
      (mul_le (ofNat_le positive) (power_le (Nat.zero_le n)))

theorem scaled_down {c n : Nat} (small : n < 308) (positive : 0 < c) (fits : c ≤ wordLimit) :
    Kept (scaled c (.negSucc n)) := by
  refine ⟨div (Binary64.ofNat c) (power (n + 1)), ?_, ?_, ?_⟩
  · rw [scaled, Nat.div_eq_of_lt small, Nat.mod_eq_of_lt small, lowered]
  · exact Nat.lt_of_lt_of_le rangeEnds.least_down
      (div_le (power_pos _) (ofNat_le positive) (power_le (by omega)))
  · exact Nat.lt_of_le_of_lt (div_le (power_pos 1) (ofNat_le fits) (power_le (by omega)))
      rangeEnds.most_down

theorem scaled_far_down {c i : Nat} (near : i < 32) (least : leastCoefficient i ≤ c)
    (fits : c ≤ wordLimit) : Kept (scaled c (.negSucc (308 + i))) := by
  have positive : 0 < c := by
    unfold leastCoefficient at least
    omega
  have some := ofNat_pos positive
  have step : (308 + i) / 308 = 1 ∧ (308 + i) % 308 = i := by omega
  refine ⟨div (div (Binary64.ofNat c) (power 308)) (power (i + 1)), ?_, ?_, ?_⟩
  · rw [scaled, step.1, step.2, lowered, if_neg (by omega), lowered]
  · exact Nat.lt_of_lt_of_le (rangeEnds.least_far_down i near)
      (div_le (power_pos _) (div_le (power_pos 308) (ofNat_le least) (Nat.le_refl _)) (Nat.le_refl _))
  · exact Nat.lt_of_le_of_lt (div_le (power_pos 1)
      (div_le (power_pos 308) (ofNat_le fits) (Nat.le_refl _)) (power_le (by omega)))
      rangeEnds.most_far_down

theorem scaled_far_up {c i : Nat} (near : i ≤ 16) (positive : 0 < c)
    (fits : c ≤ greatestCoefficient / pow10 i) : Kept (scaled c (292 + i : Nat)) := by
  have below := Nat.lt_of_le_of_lt (mul_le (ofNat_le fits) (Nat.le_refl _))
    (rangeEnds.most_far_up i near)
  exact scaled_up (by omega) below positive

theorem fits_of_reads {code c i : Nat} (finite : code < infinityCode) (near : i ≤ 16)
    (reads : Decimal.Reads code c (292 + (i + 1) : Nat)) :
    c ≤ greatestCoefficient / pow10 (i + 1) := by
  rcases Nat.lt_or_ge (greatestCoefficient / pow10 (i + 1)) c with beyond | fits
  · have infinite := Binary64.ofDecimal_le beyond (292 + (i + 1) : Nat)
    rw [Nat.succ_eq_add_one, rangeEnds.beyond_far_up i near, reads] at infinite
    omega
  · exact fits

theorem reread_greatest : Kept (reread (infinityCode - 1)) :=
  ⟨infinityCode - 1, rangeEnds.last, by decide, by decide⟩

theorem scaled_shortest_up {code n : Nat} (nonzero : code ≠ 0) (finite : code < infinityCode)
    (other : code ≠ infinityCode - 1) (up : (Decimal.shortest .toEven code).exponent = n) :
    Kept (scaled (Decimal.shortest .toEven code).coefficient n) := by
  have positive := Decimal.shortest_coefficient_pos .toEven nonzero
  have seventeen := Decimal.shortest_coefficient_le .toEven nonzero
  have leading := Decimal.leading_le nonzero finite
  obtain ⟨near, reads⟩ := Decimal.shortest_reads .toEven nonzero
  obtain ⟨k, _, grid⟩ := Decimal.shortest_near .toEven nonzero
  have high := grid.exponent_le
  rw [up] at reads high
  by_cases low : n ≤ 291
  · have below := Nat.lt_of_le_of_lt (mul_le (ofNat_le seventeen) (power_le low)) rangeEnds.most_up
    exact scaled_up (by omega) below positive
  obtain ⟨i, rfl⟩ : ∃ i, n = 292 + i := ⟨n - 292, by omega⟩
  cases i with
  | zero =>
    -- A decimal next to the greatest magnitude but one lies clear of the limit.
    have limit := rangeEnds.last_but_one
    have below : units code / (unitsPerOne * pow10 292) ≤
        units (infinityCode - 2) / (unitsPerOne * pow10 292) :=
      Nat.div_le_div_right (Binary64.units_le (by omega))
    have above := near.above
    have places : (-((292 + 0 : Nat) : Int)).toNat = 0 ∧ ((292 + 0 : Nat) : Int).toNat = 292 := by
      decide
    have one : pow10 0 = 1 := rfl
    rw [up, Decimal.gridNum, Decimal.gridDen, places.1, places.2, one, Nat.mul_one] at above
    refine scaled_far_up (by decide) positive ?_
    have whole : greatestCoefficient / pow10 0 = greatestCoefficient := Nat.div_one _
    omega
  | succ i =>
    have read : Decimal.Reads code _ _ := reads.resolve_right (by omega)
    have fits := fits_of_reads finite (by omega) read
    have some : i ≠ 16 := by
      rintro rfl
      have none : greatestCoefficient / pow10 (16 + 1) = 0 := by decide
      omega
    exact scaled_far_up (by omega) positive fits

theorem scaled_shortest_down {code n : Nat} (nonzero : code ≠ 0) (finite : code < infinityCode)
    (down : (Decimal.shortest .toEven code).exponent = .negSucc n) :
    Kept (scaled (Decimal.shortest .toEven code).coefficient (.negSucc n)) := by
  have positive := Decimal.shortest_coefficient_pos .toEven nonzero
  have fits := shortest_fits nonzero
  have leading := Decimal.leading_bounds nonzero finite
  obtain ⟨near, _⟩ := Decimal.shortest_reads .toEven nonzero
  obtain ⟨k, _, grid⟩ := Decimal.shortest_near .toEven nonzero
  have low := grid.exponent_ge
  rw [down] at low
  by_cases small : n < 308
  · exact scaled_down small positive fits
  obtain ⟨i, rfl⟩ : ∃ i, n = 308 + i := ⟨n - 308, by omega⟩
  refine scaled_far_down (by omega) ?_ fits
  have below := near.below
  have places : (-(Int.negSucc (308 + i))).toNat = 309 + i ∧ (Int.negSucc (308 + i)).toNat = 0 := by
    omega
  have one : pow10 0 = 1 := rfl
  rw [down, Decimal.gridNum, Decimal.gridDen, places.1, places.2, one, Nat.mul_one] at below
  have unit : pow10 (309 + i) / unitsPerOne ≤ units code * pow10 (309 + i) / unitsPerOne :=
    Nat.div_le_div_right (Nat.le_mul_of_pos_left _ (Decimal.units_pos nonzero))
  unfold leastCoefficient
  omega

/-- The digits of a finite magnitude scale to a finite one, and to zero only from zero. -/
theorem reread_kept {code : Nat} (nonzero : code ≠ 0) (finite : code < infinityCode) :
    Kept (reread code) := by
  by_cases last : code = infinityCode - 1
  · rw [last]
    exact reread_greatest
  have positive := Decimal.shortest_coefficient_pos .toEven nonzero
  unfold reread
  dsimp only
  split
  · rename_i whole
    obtain ⟨zeros, exponent⟩ := Int.eq_ofNat_of_zero_le whole.2
    have fits := whole_fits exponent whole.1.2
    have same : (Decimal.shortest .toEven code).exponent.toNat = zeros := by omega
    rw [same]
    exact scaled_down (by decide) (Nat.mul_pos positive (Decimal.pow10_pos _)) fits
  · cases exponent : (Decimal.shortest .toEven code).exponent with
    | ofNat n => exact scaled_shortest_up nonzero finite last exponent
    | negSucc n => exact scaled_shortest_down nonzero finite exponent

end TickReplay.Json
