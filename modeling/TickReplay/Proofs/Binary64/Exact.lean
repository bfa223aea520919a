import TickReplay.Proofs.Binary64.Order

/- Which numbers round to a given code. A magnitude does, and so does every number that is off from it
   by at most one part in 2 * 10^16, since two neighbouring magnitudes are further apart. A number of 53
   binary digits, shifted by any places in range, is a magnitude. -/
namespace TickReplay.Binary64

open Decimal (pow2_pos pow10_pos pow2_le pow2_add pow2_succ pow10_succ unitsPerOne_eq unitsPerOne_pos)

theorem code_eq (code : Nat) : code = scale code * fractions + significand code := by
  have parts := Nat.div_add_mod code fractions
  unfold scale significand
  split
  · rename_i subnormal
    rw [Nat.div_eq_of_lt subnormal, Nat.zero_sub, Nat.zero_mul, Nat.zero_add]
  · rename_i normal
    obtain ⟨s, exponent⟩ : ∃ s, code / fractions = s + 1 :=
      Nat.exists_eq_add_one.mpr (Nat.div_pos (Nat.not_lt.mp normal) (by decide))
    rw [exponent, Nat.mul_succ, Nat.mul_comm] at parts
    rw [exponent, Nat.add_sub_cancel]
    omega

theorem significand_lt (code : Nat) : significand code < 2 * fractions := by
  have fraction := Nat.mod_lt code (show 0 < fractions by decide)
  unfold significand
  split <;> omega

theorem le_significand {code : Nat} (scaled : 0 < scale code) : fractions ≤ significand code := by
  have normal : ¬ code < fractions := fun subnormal => by
    rw [scale, Nat.div_eq_of_lt subnormal] at scaled
    omega
  rw [significand, if_neg normal]
  omega

theorem roundDiv_close {m num den : Nat} (below : 2 * (m * den) < 2 * num + den)
    (above : 2 * num < 2 * (m * den) + den) : roundDiv num den = m := by
  have den_pos : 0 < den := by omega
  by_cases low : m * den ≤ num
  · have quotient : num / den = m := by
      refine (Nat.div_eq_iff den_pos).mpr ⟨low, ?_⟩
      omega
    have parts := Nat.div_add_mod num den
    rw [quotient, Nat.mul_comm] at parts
    rw [roundDiv, if_pos (by omega), quotient]
  · cases m with
    | zero => omega
    | succ m =>
      have next : (m + 1) * den = m * den + den := Nat.succ_mul m den
      have quotient : num / den = m := by
        refine (Nat.div_eq_iff den_pos).mpr ⟨?_, ?_⟩ <;> omega
      have parts := Nat.div_add_mod num den
      rw [quotient, Nat.mul_comm] at parts
      rw [roundDiv, if_neg (by omega), if_pos (by omega), quotient]

theorem shift_eq {s num den : Nat} (den_pos : 0 < den) (least : fractions * (den * pow2 s) ≤ num)
    (most : num < 2 * fractions * (den * pow2 s)) : shift num den = s := by
  have word : fractions = pow2 52 := by decide
  have words : 2 * fractions = pow2 53 := by decide
  have split (n : Nat) : n * (den * pow2 s) = n * pow2 s * den := by ring
  rw [split] at least most
  have low : pow2 (52 + s) ≤ num / den := by
    rw [pow2_add, ← word]
    exact (Nat.le_div_iff_mul_le den_pos).mpr least
  have high : num / den < pow2 (53 + s) := by
    rw [pow2_add, ← words]
    exact (Nat.div_lt_iff_lt_mul den_pos).mpr most
  have log : (num / den).log2 = 52 + s := by
    refine (Nat.log2_eq_iff ?_).mpr ⟨low, by rwa [show 52 + s + 1 = 53 + s by omega]⟩
    exact Nat.ne_of_gt (Nat.lt_of_lt_of_le (pow2_pos _) low)
  rw [shift, log]
  omega

theorem shift_zero {num den : Nat} (den_pos : 0 < den) (most : num < 2 * fractions * den) :
    shift num den = 0 := by
  have words : 2 * fractions = pow2 53 := by decide
  have high : num / den < pow2 53 := words ▸ (Nat.div_lt_iff_lt_mul den_pos).mpr most
  have log : (num / den).log2 < 53 := by
    by_cases zero : num / den = 0
    · rw [zero, Nat.log2_zero]
      decide
    · exact (Nat.log2_lt zero).mpr high
  rw [shift]
  omega

def tolerance : Nat := 2 * pow10 16

theorem within_half {m step num : Nat} (step_pos : 0 < step) (digits : m < 2 * fractions)
    (below : tolerance * (m * step) ≤ tolerance * num + m * step)
    (above : tolerance * num ≤ tolerance * (m * step) + m * step) :
    2 * (m * step) < 2 * num + step ∧ 2 * num < 2 * (m * step) + step := by
  have part : 2 * (m * step) < tolerance * step := by
    calc
      2 * (m * step) ≤ 2 * (2 * fractions * step) :=
        Nat.mul_le_mul_left 2 (Nat.mul_le_mul_right step (Nat.le_of_lt digits))
      _ = 4 * fractions * step := by ring
      _ < tolerance * step := Nat.mul_lt_mul_of_pos_right (by decide) step_pos
  have wide : tolerance = 20000000000000000 := by decide
  rw [wide] at below above part
  omega

theorem within_quarter {step num : Nat} (step_pos : 0 < step)
    (below : tolerance * (fractions * step) ≤ tolerance * num + fractions * step) :
    4 * (fractions * step) < 4 * num + step := by
  have part : 4 * fractions * step < tolerance * step :=
    Nat.mul_lt_mul_of_pos_right (by decide) step_pos
  have wide : tolerance = 20000000000000000 := by decide
  rw [wide] at below part
  rw [Nat.mul_assoc] at part
  omega

theorem nearest_close {code num den : Nat} (finite : code < infinityCode) (den_pos : 0 < den)
    (below : tolerance * (units code * den) ≤ tolerance * num + units code * den)
    (above : tolerance * num ≤ tolerance * (units code * den) + units code * den) :
    nearest num den = code := by
  have place := code_eq code
  have digits := significand_lt code
  have normal : 0 < scale code → fractions ≤ significand code := le_significand
  have split : units code * den = significand code * (den * pow2 (scale code)) := by
    rw [units]
    ring
  rw [split] at below above
  rw [nearest_eq]
  generalize significand code = m at place digits normal below above
  generalize scale code = s at place normal below above
  have step : 0 < den * pow2 s := Nat.mul_pos den_pos (pow2_pos s)
  obtain ⟨low, high⟩ := within_half step digits below above
  have most : num < 2 * fractions * (den * pow2 s) := by
    have top : (m + 1) * (den * pow2 s) ≤ 2 * fractions * (den * pow2 s) :=
      Nat.mul_le_mul_right _ digits
    rw [Nat.succ_mul] at top
    omega
  have same (shifted : shift num den = s) :
      min infinityCode (shift num den * fractions + roundDiv num (den * pow2 (shift num den))) =
        code := by
    rw [shifted, roundDiv_close low high, ← place, Nat.min_eq_right (Nat.le_of_lt finite)]
  cases s with
  | zero => exact same (shift_zero den_pos (by simpa [pow2] using most))
  | succ s =>
    have normal := normal (Nat.succ_pos s)
    by_cases least : fractions * (den * pow2 (s + 1)) ≤ num
    · exact same (shift_eq den_pos least most)
    -- Only the least significand has numbers near it of a smaller exponent, where the gaps halve.
    have lowest : m = fractions := by
      refine Nat.le_antisymm (Nat.not_lt.mp fun greater => least ?_) normal
      have more : (fractions + 1) * (den * pow2 (s + 1)) ≤ m * (den * pow2 (s + 1)) :=
        Nat.mul_le_mul_right _ greater
      rw [Nat.succ_mul] at more
      omega
    subst lowest
    have quarter := within_quarter step below
    have halves : den * pow2 (s + 1) = 2 * (den * pow2 s) := by
      rw [pow2_succ]
      ring
    have double : fractions * (2 * (den * pow2 s)) = 2 * fractions * (den * pow2 s) := by ring
    have more : fractions * (den * pow2 s) ≤ num := by
      rw [halves, double, Nat.mul_assoc] at low
      have one : den * pow2 s ≤ fractions * (den * pow2 s) :=
        Nat.le_mul_of_pos_left _ (by decide)
      omega
    rw [halves, double] at least quarter high
    have shifted : shift num den = s := shift_eq den_pos more (Nat.not_le.mp least)
    have rounded : roundDiv num (den * pow2 s) = 2 * fractions := by
      refine roundDiv_close ?_ ?_ <;> omega
    have carried : s * fractions + 2 * fractions = code := by
      rw [place, Nat.succ_mul s]
      omega
    rw [shifted, rounded, carried, Nat.min_eq_right (Nat.le_of_lt finite)]

theorem exists_units {m s : Nat} (digits : m < 2 * fractions) (range : s ≤ 2045) :
    ∃ code, code < infinityCode ∧ units code = m * pow2 s := by
  have normal (s m : Nat) (range : s ≤ 2045) (least : fractions ≤ m) (most : m < 2 * fractions) :
      s * fractions + m < infinityCode ∧ units (s * fractions + m) = m * pow2 s := by
    have whole : s * fractions + m = fractions * (s + 1) + (m - fractions) := by
      rw [Nat.mul_succ, Nat.mul_comm]
      omega
    have fraction : m - fractions < fractions := by omega
    constructor
    · have most' := Nat.mul_le_mul_right fractions range
      rw [infinityCode]
      omega
    · rw [units_eq_of_ge (by omega), whole, Nat.mul_add_mod, Nat.mod_eq_of_lt fraction,
        Nat.mul_add_div (by decide), Nat.div_eq_of_lt fraction, Nat.add_zero, Nat.add_sub_cancel,
        Nat.add_sub_cancel' least]
  induction s generalizing m with
  | zero =>
    by_cases subnormal : m < fractions
    · refine ⟨m, Nat.lt_trans subnormal (by decide), ?_⟩
      rw [units_eq_of_lt subnormal]
      exact (Nat.mul_one m).symm
    · exact ⟨_, normal 0 m range (Nat.not_lt.mp subnormal) digits⟩
  | succ s ih =>
    by_cases low : m < fractions
    · obtain ⟨code, finite, same⟩ := ih (m := 2 * m) (by omega) (by omega)
      refine ⟨code, finite, ?_⟩
      rw [same, pow2_succ]
      ring
    · exact ⟨_, normal (s + 1) m range (Nat.not_lt.mp low) digits⟩

theorem units_ofNat {m s : Nat} (digits : m < 2 * fractions) (range : s ≤ 971) :
    units (ofNat (m * pow2 s)) = m * pow2 s * unitsPerOne := by
  obtain ⟨code, finite, same⟩ := exists_units (s := s + 1074) digits (by omega)
  have product : m * pow2 s * unitsPerOne = units code := by
    rw [same, unitsPerOne_eq, pow2_add, Nat.mul_assoc]
  rw [ofNat, product, nearest_units (Nat.le_of_lt finite)]

theorem units_ofNat_of_lt {n : Nat} (digits : n < 2 * fractions) :
    units (ofNat n) = n * unitsPerOne := by
  have whole := units_ofNat digits (Nat.zero_le 971)
  rwa [show n * pow2 0 = n from Nat.mul_one n] at whole

theorem div_exact {a b n d : Nat} (dividend : units a = n * unitsPerOne)
    (divisor : units b = d * unitsPerOne) (d_pos : 0 < d) : div a b = nearest (n * unitsPerOne) d := by
  rw [div, dividend, divisor]
  refine nearest_congr (Nat.mul_pos d_pos unitsPerOne_pos) d_pos ?_
  ring

end TickReplay.Binary64
