import TickReplay.Proofs.Decimal.Shortest

/- Rounding keeps the order of the numbers that are rounded, so every operation keeps it too. A bound
   on a result follows from one computed at the end of the range. -/
namespace TickReplay.Binary64

open Decimal (pow2_pos pow10_pos pow2_le pow2_add pow2_succ pow10_succ unitsPerOne_pos units_pos)

theorem roundDiv_bounds (num den : Nat) :
    num / den ≤ roundDiv num den ∧ roundDiv num den ≤ num / den + 1 := by
  unfold roundDiv
  split
  · omega
  · split <;> omega

variable {a b c d : Nat}

theorem quotient_le (b_pos : 0 < b) (d_pos : 0 < d) (le : a * d ≤ c * b) : a / b ≤ c / d := by
  rw [Nat.le_div_iff_mul_le d_pos]
  refine Nat.le_of_mul_le_mul_right ?_ b_pos
  calc
    a / b * d * b = a / b * b * d := Nat.mul_right_comm _ _ _
    _ ≤ a * d := Nat.mul_le_mul_right d (Nat.div_mul_le_self a b)
    _ ≤ c * b := le

theorem roundDiv_le (b_pos : 0 < b) (d_pos : 0 < d) (le : a * d ≤ c * b) :
    roundDiv a b ≤ roundDiv c d := by
  have lower := (roundDiv_bounds c d).1
  have upper := (roundDiv_bounds a b).2
  rcases Nat.lt_or_eq_of_le (quotient_le b_pos d_pos le) with less | same
  · omega
  have remainders : a % b * d ≤ c % d * b := by
    have left : a * d = a / b * (b * d) + a % b * d := by
      conv_lhs => rw [← Nat.div_add_mod a b]
      ring
    have right : c * b = c / d * (b * d) + c % d * b := by
      conv_lhs => rw [← Nat.div_add_mod c d]
      ring
    rw [same] at left
    omega
  -- With equal quotients only the halves decide, and of two ties the same side is even.
  by_cases low : 2 * (a % b) < b
  · rw [roundDiv, if_pos low]
    omega
  have half : d ≤ 2 * (c % d) := by
    refine Nat.le_of_mul_le_mul_right ?_ b_pos
    calc
      d * b ≤ d * (2 * (a % b)) := Nat.mul_le_mul_left d (by omega)
      _ = 2 * (a % b * d) := by ring
      _ ≤ 2 * (c % d * b) := Nat.mul_le_mul_left 2 remainders
      _ = 2 * (c % d) * b := (Nat.mul_assoc _ _ _).symm
  by_cases high : d < 2 * (c % d)
  · have result : roundDiv c d = c / d + 1 := by
      rw [roundDiv, if_neg (by omega), if_pos high]
    omega
  have tie : 2 * (a % b) ≤ b := by
    refine Nat.le_of_mul_le_mul_right ?_ d_pos
    calc
      2 * (a % b) * d = 2 * (a % b * d) := Nat.mul_assoc _ _ _
      _ ≤ 2 * (c % d * b) := Nat.mul_le_mul_left 2 remainders
      _ = 2 * (c % d) * b := (Nat.mul_assoc _ _ _).symm
      _ = b * d := by rw [show 2 * (c % d) = d by omega, Nat.mul_comm]
  have evens : roundDiv a b = roundDiv c d := by
    rw [roundDiv, roundDiv, if_neg (by omega), if_neg (by omega), if_neg (by omega),
      if_neg (by omega), same]
  exact Nat.le_of_eq evens

def shift (num den : Nat) : Nat := (num / den).log2 - 52

theorem nearest_eq (num den : Nat) : nearest num den =
    min infinityCode (shift num den * fractions + roundDiv num (den * pow2 (shift num den))) := rfl

theorem lt_pow2_shift (num den : Nat) : num / den < 2 * fractions * pow2 (shift num den) := by
  have word : 2 * fractions = pow2 53 := by decide
  rw [word, ← pow2_add]
  refine Nat.lt_of_lt_of_le Nat.lt_log2_self (pow2_le ?_)
  unfold shift
  omega

theorem pow2_shift_le {num den : Nat} (some : 0 < shift num den) :
    fractions * pow2 (shift num den) ≤ num / den := by
  have word : fractions = pow2 52 := by decide
  rw [word, ← pow2_add]
  have nonzero : num / den ≠ 0 := by
    intro zero
    rw [shift, zero, Nat.log2_zero] at some
    omega
  refine (Nat.le_log2 nonzero).mp ?_
  unfold shift at some ⊢
  omega

theorem roundDiv_shift_le (num den : Nat) :
    roundDiv num (den * pow2 (shift num den)) ≤ 2 * fractions := by
  have bound := (roundDiv_bounds num (den * pow2 (shift num den))).2
  have quotient : num / (den * pow2 (shift num den)) < 2 * fractions := by
    rw [← Nat.div_div_eq_div_mul]
    exact (Nat.div_lt_iff_lt_mul (pow2_pos _)).mpr (lt_pow2_shift num den)
  omega

theorem le_roundDiv_shift {num den : Nat} (some : 0 < shift num den) :
    fractions ≤ roundDiv num (den * pow2 (shift num den)) := by
  refine Nat.le_trans ?_ (roundDiv_bounds _ _).1
  rw [← Nat.div_div_eq_div_mul]
  exact (Nat.le_div_iff_mul_le (pow2_pos _)).mpr (pow2_shift_le some)

theorem log2_le {m n : Nat} (le : m ≤ n) : m.log2 ≤ n.log2 := by
  by_cases zero : m = 0
  · rw [zero, Nat.log2_zero]
    exact Nat.zero_le _
  · exact (Nat.le_log2 (by omega)).mpr (Nat.le_trans (Nat.log2_self_le zero) le)

theorem nearest_le (b_pos : 0 < b) (d_pos : 0 < d) (le : a * d ≤ c * b) :
    nearest a b ≤ nearest c d := by
  have shifts : shift a b ≤ shift c d :=
    Nat.sub_le_sub_right (log2_le (quotient_le b_pos d_pos le)) 52
  rw [nearest_eq, nearest_eq]
  refine Nat.le_min.mpr ⟨Nat.min_le_left _ _, Nat.le_trans (Nat.min_le_right _ _) ?_⟩
  rcases Nat.lt_or_eq_of_le shifts with less | same
  · have below := roundDiv_shift_le a b
    have above : fractions ≤ roundDiv c (d * pow2 (shift c d)) := le_roundDiv_shift (by omega)
    have exponents := Nat.mul_le_mul_right fractions less
    rw [Nat.succ_mul] at exponents
    omega
  · rw [same]
    refine Nat.add_le_add_left (roundDiv_le ?_ ?_ ?_) _
    · exact Nat.mul_pos b_pos (pow2_pos _)
    · exact Nat.mul_pos d_pos (pow2_pos _)
    · rw [← Nat.mul_assoc, ← Nat.mul_assoc]
      exact Nat.mul_le_mul_right _ le

theorem nearest_congr (b_pos : 0 < b) (d_pos : 0 < d) (same : a * d = c * b) :
    nearest a b = nearest c d :=
  Nat.le_antisymm (nearest_le b_pos d_pos (Nat.le_of_eq same))
    (nearest_le d_pos b_pos (Nat.le_of_eq same.symm))

theorem units_eq_of_lt {code : Nat} (subnormal : code < fractions) : units code = code := by
  have lowest : scale code = 0 := by
    rw [scale, Nat.div_eq_of_lt subnormal]
  rw [units, significand, if_pos subnormal, lowest]
  exact Nat.mul_one code

theorem units_eq_of_ge {code : Nat} (normal : fractions ≤ code) :
    units code = (fractions + code % fractions) * pow2 (code / fractions - 1) := by
  rw [units, significand, if_neg (by omega), scale]

theorem units_le {m n : Nat} (le : m ≤ n) : units m ≤ units n := by
  by_cases top : n < fractions
  · rw [units_eq_of_lt top, units_eq_of_lt (by omega)]
    exact le
  have normal : fractions ≤ n := by omega
  have some : 0 < n / fractions := Nat.div_pos normal (by decide)
  have fraction : m % fractions < fractions := Nat.mod_lt m (by decide)
  rw [units_eq_of_ge normal]
  by_cases bottom : m < fractions
  · rw [units_eq_of_lt bottom]
    calc
      m ≤ fractions + n % fractions := by omega
      _ ≤ (fractions + n % fractions) * pow2 (n / fractions - 1) :=
        Nat.le_mul_of_pos_right _ (pow2_pos _)
  rw [units_eq_of_ge (by omega)]
  have some' : 0 < m / fractions := Nat.div_pos (by omega) (by decide)
  rcases Nat.lt_or_eq_of_le (Nat.div_le_div_right le : m / fractions ≤ n / fractions) with less | same
  · calc
      (fractions + m % fractions) * pow2 (m / fractions - 1)
          ≤ fractions * 2 * pow2 (m / fractions - 1) := Nat.mul_le_mul_right _ (by omega)
      _ = fractions * pow2 (m / fractions - 1 + 1) := by rw [pow2_succ]; ring
      _ ≤ (fractions + n % fractions) * pow2 (n / fractions - 1) :=
        Nat.mul_le_mul (Nat.le_add_right _ _) (pow2_le (by omega))
  · rw [same]
    refine Nat.mul_le_mul_right _ ?_
    have left := Nat.div_add_mod m fractions
    have right := Nat.div_add_mod n fractions
    rw [same] at left
    omega

theorem nearest_units {code : Nat} (bounded : code ≤ infinityCode) : nearest (units code) 1 = code := by
  have exact_ (q shift : Nat) : roundDiv (q * pow2 shift) (1 * pow2 shift) = q := by
    rw [roundDiv, Nat.one_mul, Nat.mul_mod_left, Nat.mul_div_cancel _ (pow2_pos shift),
      if_pos (by simpa using pow2_pos shift)]
  by_cases subnormal : code < fractions
  · have least : shift code 1 = 0 := by
      have small : code.log2 < 53 := by
        by_cases zero : code = 0
        · rw [zero, Nat.log2_zero]
          decide
        · refine (Nat.log2_lt zero).mpr (Nat.lt_trans subnormal ?_)
          decide
      rw [shift, Nat.div_one]
      omega
    rw [units_eq_of_lt subnormal, nearest_eq, least]
    have same := exact_ code 0
    rw [show code * pow2 0 = code from Nat.mul_one code] at same
    rw [same, Nat.zero_mul, Nat.zero_add, Nat.min_eq_right bounded]
  · have some : 0 < code / fractions := Nat.div_pos (by omega) (by decide)
    have fraction : code % fractions < fractions := Nat.mod_lt code (by decide)
    have parts := Nat.div_add_mod code fractions
    rw [units_eq_of_ge (by omega)]
    generalize code / fractions = q at some parts ⊢
    generalize code % fractions = r at fraction parts ⊢
    obtain ⟨q, rfl⟩ : ∃ k, q = k + 1 := ⟨q - 1, by omega⟩
    have word : fractions = pow2 52 := by decide
    have normal : shift ((fractions + r) * pow2 (q + 1 - 1)) 1 = q := by
      have log : ((fractions + r) * pow2 q).log2 = 52 + q := by
        refine (Nat.log2_eq_iff ?_).mpr ⟨?_, ?_⟩
        · exact Nat.ne_of_gt (Nat.mul_pos (by omega) (pow2_pos q))
        · change pow2 (52 + q) ≤ _
          rw [pow2_add, ← word]
          exact Nat.mul_le_mul_right _ (by omega)
        · change _ < pow2 (52 + q + 1)
          rw [pow2_succ, pow2_add, ← word, Nat.mul_right_comm]
          exact Nat.mul_lt_mul_of_pos_right (by omega) (pow2_pos q)
      rw [shift, Nat.div_one, Nat.add_sub_cancel, log, Nat.add_sub_cancel_left]
    rw [nearest_eq, normal, Nat.add_sub_cancel, exact_]
    have whole : q * fractions + (fractions + r) = code := by
      rw [← parts, Nat.mul_succ, Nat.mul_comm q]
      omega
    rw [whole, Nat.min_eq_right bounded]

theorem ofNat_le (le : a ≤ b) : ofNat a ≤ ofNat b := by
  refine nearest_le Nat.one_pos Nat.one_pos ?_
  rw [Nat.mul_one, Nat.mul_one]
  exact Nat.mul_le_mul_right _ le

theorem mul_le (first : a ≤ c) (second : b ≤ d) : mul a b ≤ mul c d := by
  refine nearest_le unitsPerOne_pos unitsPerOne_pos (Nat.mul_le_mul_right _ ?_)
  exact Nat.mul_le_mul (units_le first) (units_le second)

theorem div_le (d_pos : d ≠ 0) (dividend : a ≤ c) (divisor : d ≤ b) : div a b ≤ div c d := by
  refine nearest_le (units_pos (by omega)) (units_pos d_pos) ?_
  exact Nat.mul_le_mul (Nat.mul_le_mul_right _ (units_le dividend)) (units_le divisor)

theorem ofDecimal_le (le : a ≤ b) (exponent : Int) :
    ofDecimal a exponent ≤ ofDecimal b exponent := by
  refine nearest_le (pow10_pos _) (pow10_pos _) (Nat.mul_le_mul_right _ ?_)
  exact Nat.mul_le_mul_right _ (Nat.mul_le_mul_right _ le)

theorem pow10_next (exponent : Int) : pow10 (exponent + 1).toNat * pow10 (-exponent).toNat =
    10 * (pow10 exponent.toNat * pow10 (-(exponent + 1)).toNat) := by
  cases exponent with
  | ofNat n =>
    rw [Int.ofNat_eq_natCast]
    have down : (-((n : Int) + 1)).toNat = 0 ∧ (-(n : Int)).toNat = 0 := by omega
    have up : ((n : Int) + 1).toNat = n + 1 ∧ (n : Int).toNat = n := by omega
    rw [down.1, down.2, up.1, up.2, pow10_succ]
    ring
  | negSucc n =>
    have down : (-(Int.negSucc n + 1)).toNat = n ∧ (-Int.negSucc n).toNat = n + 1 := by omega
    have up : (Int.negSucc n + 1).toNat = 0 ∧ (Int.negSucc n).toNat = 0 := by omega
    rw [down.1, down.2, up.1, up.2, pow10_succ]
    ring

theorem ofDecimal_tenfold (coefficient : Nat) (exponent : Int) :
    ofDecimal (10 * coefficient) exponent = ofDecimal coefficient (exponent + 1) := by
  refine nearest_congr (pow10_pos _) (pow10_pos _) ?_
  calc
    10 * coefficient * pow10 exponent.toNat * unitsPerOne * pow10 (-(exponent + 1)).toNat
        = coefficient * unitsPerOne *
            (10 * (pow10 exponent.toNat * pow10 (-(exponent + 1)).toNat)) := by ring
    _ = coefficient * pow10 (exponent + 1).toNat * unitsPerOne * pow10 (-exponent).toNat := by
      rw [← pow10_next]
      ring

end TickReplay.Binary64
