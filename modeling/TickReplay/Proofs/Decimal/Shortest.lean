import Mathlib.Tactic.Ring
import TickReplay.Decimal.Shortest

/- How large a shortest decimal can be. Its grid is at most sixteen places finer than its first digit,
   so seventeen digits hold the coefficient, and a finite magnitude keeps the first digit within a few
   thousand places of the point. -/
namespace TickReplay.Decimal

open Binary64 (units unitsPerOne infinityCode fractions)

theorem pow2_succ (n : Nat) : pow2 (n + 1) = pow2 n * 2 := rfl
theorem pow10_succ (n : Nat) : pow10 (n + 1) = pow10 n * 10 := rfl
theorem pow2_add (m n : Nat) : pow2 (m + n) = pow2 m * pow2 n := Nat.pow_add 2 m n
theorem pow10_add (m n : Nat) : pow10 (m + n) = pow10 m * pow10 n := Nat.pow_add 10 m n
theorem pow2_pos (n : Nat) : 0 < pow2 n := Nat.pow_pos (by decide)
theorem pow10_pos (n : Nat) : 0 < pow10 n := Nat.pow_pos (by decide)

theorem pow2_le {m n : Nat} (le : m ≤ n) : pow2 m ≤ pow2 n :=
  Nat.pow_le_pow_right (by decide) le

theorem pow10_cross (m n : Nat) : pow10 (n - m) * pow10 m = pow10 (m - n) * pow10 n := by
  have same : n - m + m = m - n + n := by omega
  rw [← pow10_add, ← pow10_add, same]

theorem log10Fuel_le (fuel n : Nat) : log10Fuel fuel n ≤ fuel := by
  induction fuel generalizing n with
  | zero => exact Nat.le_refl 0
  | succ fuel ih =>
    unfold log10Fuel
    split
    · omega
    · have tail := ih (n / 10)
      omega

theorem lt_pow10_log10Fuel {fuel n : Nat} (enough : n < pow2 (fuel + 1)) :
    n < pow10 (log10Fuel fuel n + 1) := by
  induction fuel generalizing n with
  | zero =>
    change n < 2 at enough
    change n < 10
    omega
  | succ fuel ih =>
    unfold log10Fuel
    split
    · assumption
    · have half : n / 10 < pow2 (fuel + 1) := by
        rw [pow2_succ] at enough
        omega
      have tail := ih half
      rw [pow10_succ]
      omega

theorem pow10_log10Fuel_le {n : Nat} (positive : 0 < n) (fuel : Nat) :
    pow10 (log10Fuel fuel n) ≤ n := by
  induction fuel generalizing n with
  | zero => exact positive
  | succ fuel ih =>
    unfold log10Fuel
    split
    · exact positive
    · have tail := ih (n := n / 10) (by omega)
      rw [pow10_succ]
      omega

theorem lt_pow10_log10 (n : Nat) : n < pow10 (log10 n + 1) :=
  lt_pow10_log10Fuel Nat.lt_log2_self

theorem pow10_log10_le {n : Nat} (positive : 0 < n) : pow10 (log10 n) ≤ n :=
  pow10_log10Fuel_le positive n.log2

theorem log10_lt {n bits : Nat} (positive : 0 < n) (bound : n < pow2 bits) : log10 n < bits :=
  Nat.lt_of_le_of_lt (log10Fuel_le n.log2 n)
    ((Nat.log2_lt (Nat.pos_iff_ne_zero.mp positive)).mpr bound)

theorem unitsPerOne_eq : unitsPerOne = pow2 1074 := by
  delta unitsPerOne
  exact Eq.refl _

theorem unitsPerOne_pos : 0 < unitsPerOne := unitsPerOne_eq ▸ pow2_pos 1074

theorem units_pos {code : Nat} (nonzero : code ≠ 0) : 0 < units code := by
  refine Nat.mul_pos ?_ (pow2_pos _)
  unfold Binary64.significand
  split
  · omega
  · exact Nat.add_pos_left (by decide) _

theorem units_lt {code : Nat} (finite : code < infinityCode) : units code < pow2 2098 := by
  have low : Binary64.significand code < pow2 53 := by
    have fraction := Nat.mod_lt code (show 0 < fractions by decide)
    have word : pow2 53 = 2 * fractions := by decide
    rw [word]
    unfold Binary64.significand
    split <;> omega
  have high : pow2 (Binary64.scale code) ≤ pow2 2045 := by
    refine pow2_le ?_
    simp only [Binary64.scale, infinityCode, fractions] at finite ⊢
    omega
  calc
    units code < pow2 53 * pow2 2045 := Nat.mul_lt_mul_of_lt_of_le low high (pow2_pos 2045)
    _ = pow2 2098 := (pow2_add 53 2045).symm

def leastDecimals (code : Nat) : Nat := units code * pow10 324 / unitsPerOne

theorem leading_eq (code : Nat) : leading code = (log10 (leastDecimals code) : Int) - 324 := rfl

theorem leastDecimals_pos {code : Nat} (nonzero : code ≠ 0) : 0 < leastDecimals code := by
  have one : unitsPerOne ≤ pow10 324 := by decide +kernel
  refine Nat.div_pos ?_ unitsPerOne_pos
  exact Nat.le_trans one (Nat.le_mul_of_pos_left _ (units_pos nonzero))

theorem leastDecimals_lt {code : Nat} (finite : code < infinityCode) :
    leastDecimals code < pow2 3175 := by
  have ten : pow10 324 < pow2 1077 := by decide +kernel
  calc
    leastDecimals code ≤ units code * pow10 324 := Nat.div_le_self _ _
    _ < pow2 2098 * pow2 1077 :=
      Nat.mul_lt_mul_of_lt_of_le (units_lt finite) (Nat.le_of_lt ten) (pow2_pos 1077)
    _ = pow2 3175 := (pow2_add 2098 1077).symm

theorem units_lt_leading (code : Nat) :
    units code * pow10 324 < unitsPerOne * pow10 (log10 (leastDecimals code) + 1) := by
  have below := lt_pow10_log10 (leastDecimals code)
  rw [Nat.mul_comm unitsPerOne]
  exact (Nat.div_lt_iff_lt_mul unitsPerOne_pos).mp below

theorem leading_le_units {code : Nat} (nonzero : code ≠ 0) :
    unitsPerOne * pow10 (log10 (leastDecimals code)) ≤ units code * pow10 324 := by
  have above := pow10_log10_le (leastDecimals_pos nonzero)
  rw [Nat.mul_comm unitsPerOne]
  exact (Nat.le_div_iff_mul_le unitsPerOne_pos).mp above

theorem gridDen_pos (exponent : Int) : 0 < gridDen exponent := by
  rw [gridDen]
  exact Nat.mul_pos unitsPerOne_pos (pow10_pos _)

theorem gridNum_mul (code k : Nat) :
    gridNum code (leading code - k) * pow10 (log10 (leastDecimals code)) =
      units code * pow10 324 * (pow10 (leading code - k).toNat * pow10 k) := by
  have exponent : (-(leading code - k)).toNat = 324 + k - log10 (leastDecimals code) := by
    rw [leading_eq]
    omega
  have opposite : (leading code - k).toNat = log10 (leastDecimals code) - (324 + k) := by
    rw [leading_eq]
    omega
  rw [gridNum, exponent, opposite, Nat.mul_assoc, pow10_cross, pow10_add 324 k]
  ring

/-- On the grid k places below the first digit the magnitude has k + 1 whole digits. -/
theorem gridNum_lt (code k : Nat) :
    gridNum code (leading code - k) < pow10 (k + 1) * gridDen (leading code - k) := by
  have factor : 0 < pow10 (leading code - k).toNat * pow10 k :=
    Nat.mul_pos (pow10_pos _) (pow10_pos k)
  have bound := Nat.mul_lt_mul_of_pos_right (units_lt_leading code) factor
  rw [← gridNum_mul] at bound
  refine Nat.lt_of_mul_lt_mul_right (Nat.lt_of_lt_of_eq bound ?_)
  rw [gridDen, pow10_succ, pow10_succ]
  ring

theorem le_gridNum {code : Nat} (nonzero : code ≠ 0) (k : Nat) :
    pow10 k * gridDen (leading code - k) ≤ gridNum code (leading code - k) := by
  have bound := Nat.mul_le_mul_right (pow10 (leading code - k).toNat * pow10 k)
    (leading_le_units nonzero)
  rw [← gridNum_mul] at bound
  refine Nat.le_of_mul_le_mul_right (Nat.le_trans (Nat.le_of_eq ?_) bound) (pow10_pos _)
  rw [gridDen]
  ring

/-- A decimal on the grid k places below the first digit of a magnitude, or shorter by one digit. -/
structure Near (code k : Nat) (x : Decimal) : Prop where
  positive : 0 < x.coefficient
  coefficient_le : x.coefficient ≤ pow10 (k + 1)
  exponent_ge : leading code - k ≤ x.exponent
  exponent_le : x.exponent ≤ leading code - k + 1

theorem roundDiv_zero (den : Nat) : Binary64.roundDiv 0 den = 0 := by
  simp only [Binary64.roundDiv, Nat.zero_mod, Nat.zero_div, Nat.mul_zero]
  split
  · rfl
  · split
    · omega
    · rfl

theorem ofDecimal_zero (exponent : Int) : Binary64.ofDecimal 0 exponent = 0 := by
  simp [Binary64.ofDecimal, Binary64.nearest, roundDiv_zero, Nat.log2_zero]

theorem reads_pos {code coefficient : Nat} {exponent : Int} (nonzero : code ≠ 0)
    (reads : Reads code coefficient exponent) : 0 < coefficient := by
  refine Nat.pos_of_ne_zero fun zero => nonzero ?_
  rw [← reads, zero, ofDecimal_zero]

theorem nearer_neighbour (tie : Tie) (num den : Nat) :
    nearer tie num den = num / den ∨ nearer tie num den = num / den + 1 := by
  unfold nearer
  split
  · exact .inl rfl
  split
  · exact .inr rfl
  cases tie with
  | toEven => dsimp only; omega
  | upward => exact .inr rfl

theorem onGrid_eq (tie : Tie) (code : Nat) (exponent : Int) :
    onGrid tie code exponent =
      let below := gridNum code exponent / gridDen exponent
      if Reads code below exponent then
        if Reads code (below + 1) exponent then
          some (nearer tie (gridNum code exponent) (gridDen exponent))
        else some below
      else if Reads code (below + 1) exponent then some (below + 1)
      else none := by
  simp only [onGrid, gridNum, gridDen]

theorem onGrid_neighbour {tie : Tie} {code coefficient : Nat} {exponent : Int}
    (found : onGrid tie code exponent = some coefficient) :
    Reads code coefficient exponent ∧
      (coefficient = gridNum code exponent / gridDen exponent ∨
        coefficient = gridNum code exponent / gridDen exponent + 1) := by
  rw [onGrid_eq] at found
  dsimp only at found
  split at found
  · rename_i below
    split at found
    · rename_i above
      have same := Option.some.inj found
      rcases nearer_neighbour tie (gridNum code exponent) (gridDen exponent) with at_ | at_
      · rw [← same, at_]
        exact ⟨below, .inl rfl⟩
      · rw [← same, at_]
        exact ⟨above, .inr rfl⟩
    · rw [← Option.some.inj found]
      exact ⟨below, .inl rfl⟩
  · split at found
    · rename_i above
      rw [← Option.some.inj found]
      exact ⟨above, .inr rfl⟩
    · contradiction

theorem neighbour_le {code k coefficient : Nat}
    (near : coefficient = gridNum code (leading code - k) / gridDen (leading code - k) ∨
      coefficient = gridNum code (leading code - k) / gridDen (leading code - k) + 1) :
    coefficient ≤ pow10 (k + 1) := by
  have below := (Nat.div_lt_iff_lt_mul (gridDen_pos (leading code - k))).mpr (gridNum_lt code k)
  omega

theorem trimmed_near {code k coefficient : Nat} (positive : 0 < coefficient)
    (bound : coefficient ≤ pow10 (k + 1)) :
    Near code k (trimmed coefficient (leading code - k)) := by
  unfold trimmed
  split
  · constructor
    · change 0 < coefficient / 10
      omega
    · change coefficient / 10 ≤ _
      omega
    · change _ ≤ leading code - k + 1
      omega
    · exact Int.le_refl _
  · constructor
    · exact positive
    · exact bound
    · exact Int.le_refl _
    · change leading code - k ≤ _
      omega

theorem finest_near (tie : Tie) {code : Nat} (nonzero : code ≠ 0) :
    Near code 16 (finest tie code) := by
  -- Whether the coefficient reads back is not looked at here, so that it is positive has to come from
  -- the size of the magnitude on this grid.
  have low := (Nat.le_div_iff_mul_le (gridDen_pos (leading code - (16 : Nat)))).mpr
    (le_gridNum nonzero 16)
  have some := pow10_pos 16
  have near := nearer_neighbour tie (gridNum code (leading code - (16 : Nat)))
    (gridDen (leading code - (16 : Nat)))
  have bound := neighbour_le near
  constructor
  · change 0 < nearer tie (gridNum code (leading code - (16 : Nat)))
      (gridDen (leading code - (16 : Nat)))
    omega
  · exact bound
  · exact Int.le_refl _
  · change leading code - 16 ≤ leading code - 16 + 1
    omega

theorem found_near {tie : Tie} {code k : Nat} {x : Decimal} (nonzero : code ≠ 0)
    (result : found tie code k = some x) : Near code k x := by
  obtain ⟨coefficient, grid, rfl⟩ := Option.map_eq_some_iff.mp result
  obtain ⟨reads, near⟩ := onGrid_neighbour grid
  exact trimmed_near (reads_pos nonzero reads) (neighbour_le near)

theorem shortest_near (tie : Tie) {code : Nat} (nonzero : code ≠ 0) :
    ∃ k, k ≤ 16 ∧ Near code k (shortest tie code) := by
  rw [shortest, if_neg nonzero]
  cases search : (List.range 16).findSome? (found tie code) with
  | none => exact ⟨16, Nat.le_refl 16, finest_near tie nonzero⟩
  | some x =>
    obtain ⟨k, member, result⟩ := List.exists_of_findSome?_eq_some search
    have bound := List.mem_range.mp member
    exact ⟨k, by omega, found_near nonzero result⟩

/-- Seventeen digits are enough, but for a last step up to the next power of ten. -/
theorem shortest_coefficient_le (tie : Tie) {code : Nat} (nonzero : code ≠ 0) :
    (shortest tie code).coefficient ≤ pow10 17 := by
  obtain ⟨k, small, near⟩ := shortest_near tie nonzero
  exact Nat.le_trans near.coefficient_le (Nat.pow_le_pow_right (by decide) (by omega))

theorem shortest_coefficient_pos (tie : Tie) {code : Nat} (nonzero : code ≠ 0) :
    0 < (shortest tie code).coefficient := by
  obtain ⟨k, _, near⟩ := shortest_near tie nonzero
  exact near.positive

theorem leading_bounds {code : Nat} (nonzero : code ≠ 0) (finite : code < infinityCode) :
    -324 ≤ leading code ∧ leading code < 2851 := by
  have high := log10_lt (leastDecimals_pos nonzero) (leastDecimals_lt finite)
  rw [leading_eq]
  omega

theorem digits_length_le {x : Decimal} {k : Nat} (bound : x.coefficient < pow10 (k + 1)) :
    x.digits.length ≤ k + 1 :=
  (Nat.length_toDigits_le_iff (by decide) (Nat.succ_pos k)).mpr bound

theorem shortest_order_bounds (tie : Tie) {code : Nat} (nonzero : code ≠ 0)
    (finite : code < infinityCode) : (shortest tie code).order.natAbs ≤ 3000 := by
  obtain ⟨k, small, near⟩ := shortest_near tie nonzero
  have leading := leading_bounds nonzero finite
  have coefficient := shortest_coefficient_le tie nonzero
  have wide : pow10 17 < pow10 18 := by decide
  have length := digits_length_le (Nat.lt_of_le_of_lt coefficient wide)
  have low := near.exponent_ge
  have high := near.exponent_le
  have some : 0 < (shortest tie code).digits.length := Nat.length_toDigits_pos
  simp only [order]
  omega

end TickReplay.Decimal
