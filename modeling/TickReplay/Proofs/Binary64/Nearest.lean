import Mathlib.Data.Rat.Floor
import Mathlib.Tactic.FieldSimp
import Mathlib.Tactic.Linarith
import Mathlib.Tactic.Positivity.Basic
import TickReplay.Proofs.Binary64.Order

/- The exact value of a number as a rational, and the integer nearest to a rational, the even one of two
   equally near. There is one such integer for every rational, it grows with the rational, and rounding
   a quotient finds it. -/
namespace TickReplay

structure NearestInt (q : ℚ) (n : ℤ) : Prop where
  near : ∀ m : ℤ, |q - n| ≤ |q - m|
  even : ∀ m : ℤ, m ≠ n → |q - m| = |q - n| → Even n

namespace NearestInt

variable {q r : ℚ} {m n : ℤ}

theorem of_half (near : |q - n| ≤ 1 / 2) (tie : |q - n| = 1 / 2 → Even n) : NearestInt q n := by
  have apart (m : ℤ) (other : m ≠ n) : 1 ≤ |q - m| + |q - n| := by
    have whole : 1 ≤ |n - m| := Int.one_le_abs (sub_ne_zero.mpr other.symm)
    calc
      (1 : ℚ) ≤ |(n : ℚ) - m| := by exact_mod_cast whole
      _ = |(q - m) - (q - n)| := by ring_nf
      _ ≤ |q - m| + |q - n| := abs_sub _ _
  constructor
  · intro m
    rcases eq_or_ne m n with rfl | other
    · exact le_refl _
    · have least := apart m other
      linarith
  · intro m other same
    have least := apart m other
    exact tie (by linarith)

theorem self (n : ℤ) : NearestInt n n := of_half (by simp) (by simp)

theorem half (nearest : NearestInt q n) : |q - n| ≤ 1 / 2 := by
  have up := nearest.near (n + 1)
  have down := nearest.near (n - 1)
  push_cast at up down
  by_contra far
  rcases le_total 0 (q - n) with above | below
  · rw [abs_of_nonneg above] at up far
    have nearer : |q - (n + 1)| < q - n := abs_lt.mpr ⟨by linarith, by linarith⟩
    linarith
  · rw [abs_of_nonpos below] at down far
    have nearer : |q - (n - 1)| < -(q - n) := abs_lt.mpr ⟨by linarith, by linarith⟩
    linarith

theorem even_of_tie (nearest : NearestInt q n) (tie : |q - n| = 1 / 2) : Even n := by
  rcases le_total 0 (q - n) with above | below
  · refine nearest.even (n + 1) (by omega) ?_
    rw [abs_of_nonneg above] at tie
    push_cast
    rw [abs_of_nonneg above, tie, show q - (n + 1) = -(1 / 2) by linarith]
    norm_num
  · refine nearest.even (n - 1) (by omega) ?_
    rw [abs_of_nonpos below] at tie
    push_cast
    rw [abs_of_nonpos below, tie, show q - (n - 1) = 1 / 2 by linarith]
    norm_num

theorem mono (le : q ≤ r) (first : NearestInt q m) (second : NearestInt r n) : m ≤ n := by
  by_contra greater
  have step : (n : ℚ) + 1 ≤ m := by exact_mod_cast (show n + 1 ≤ m by omega)
  obtain ⟨low, _⟩ := abs_le.mp first.half
  obtain ⟨_, high⟩ := abs_le.mp second.half
  -- Both numbers lie half way between two neighbours, of which only one is even.
  have next : m = n + 1 := by
    have : (m : ℚ) = n + 1 := by linarith
    exact_mod_cast this
  have m_even : Even m := first.even_of_tie (by
    rw [show q - m = -(1 / 2) by linarith]
    norm_num)
  have n_even : Even n := second.even_of_tie (by
    rw [show r - n = 1 / 2 by linarith]
    norm_num)
  rw [next, Int.even_add_one] at m_even
  exact m_even n_even

theorem add_even {k : ℤ} (even : Even k) (nearest : NearestInt q n) : NearestInt (q + k) (n + k) := by
  have same : q + k - ((n + k : ℤ) : ℚ) = q - n := by
    push_cast
    ring
  refine of_half ?_ fun tie => ?_
  · rw [same]
    exact nearest.half
  · rw [same] at tie
    exact (nearest.even_of_tie tie).add even

theorem neg (nearest : NearestInt q n) : NearestInt (-q) (-n) := by
  have same : |-q - ((-n : ℤ) : ℚ)| = |q - n| := by
    push_cast
    rw [neg_sub_neg, abs_sub_comm]
  refine of_half ?_ fun tie => ?_
  · rw [same]
    exact nearest.half
  · rw [same] at tie
    exact (nearest.even_of_tie tie).neg

end NearestInt

namespace Binary64

theorem nearest_roundDiv (num : Nat) {den : Nat} (den_pos : 0 < den) :
    NearestInt (num / den) (roundDiv num den) := by
  have positive : (0 : ℚ) < den := by exact_mod_cast den_pos
  have below := Nat.mod_lt num den_pos
  have parts : (num : ℚ) = den * (num / den : Nat) + (num % den : Nat) := by
    exact_mod_cast (Nat.div_add_mod num den).symm
  unfold roundDiv
  generalize num / den = k at parts ⊢
  generalize num % den = r at below parts ⊢
  have rest (n : ℤ) : (num : ℚ) / den - n = k + r / den - n := by
    rw [parts]
    field_simp
  have some : (0 : ℚ) ≤ r / den := by positivity
  split
  · rename_i low
    have small : (r : ℚ) / den < 1 / 2 := by
      rw [div_lt_div_iff₀ positive (by norm_num)]
      exact_mod_cast (show r * 2 < 1 * den by omega)
    have near : |(num : ℚ) / den - (k : ℤ)| < 1 / 2 := by
      rw [rest, abs_lt]
      constructor <;> push_cast <;> linarith
    exact .of_half (le_of_lt near) fun tie => absurd tie (ne_of_lt near)
  split
  · rename_i high
    have large : (1 : ℚ) / 2 < r / den := by
      rw [div_lt_div_iff₀ (by norm_num) positive]
      exact_mod_cast (show 1 * den < r * 2 by omega)
    have less : (r : ℚ) / den < 1 := by
      rw [div_lt_one positive]
      exact_mod_cast below
    have near : |(num : ℚ) / den - (k + 1 : Nat)| < 1 / 2 := by
      rw [← Int.cast_natCast (k + 1), rest, abs_lt]
      constructor <;> push_cast <;> linarith
    exact .of_half (le_of_lt near) fun tie => absurd tie (ne_of_lt near)
  · have half : (r : ℚ) / den = 1 / 2 := by
      rw [div_eq_div_iff (ne_of_gt positive) (by norm_num)]
      exact_mod_cast (show r * 2 = 1 * den by omega)
    have even : (k + k % 2) % 2 = 0 := by omega
    refine .of_half (le_of_eq ?_) fun _ => ?_
    · rw [rest, half]
      rcases Nat.mod_two_eq_zero_or_one k with same | next
      · rw [same, show (k : ℚ) + 1 / 2 - ((k + 0 : Nat) : ℤ) = 1 / 2 by push_cast; ring]
        norm_num
      · rw [next, show (k : ℚ) + 1 / 2 - ((k + 1 : Nat) : ℤ) = -(1 / 2) by push_cast; ring]
        norm_num
    · rw [Int.even_iff]
      exact_mod_cast even

def toRat (x : Binary64) : ℚ :=
  (if x.negative then -1 else 1) * (units x.code / unitsPerOne)

theorem abs_toRat (x : Binary64) : |x.toRat| = units x.code / unitsPerOne := by
  have nonneg : (0 : ℚ) ≤ units x.code / unitsPerOne := by positivity
  have sign : |(if x.negative then -1 else 1 : ℚ)| = 1 := by split <;> simp
  rw [toRat, abs_mul, sign, one_mul, abs_of_nonneg nonneg]

theorem toRat_eq_abs (x : Binary64) : x.toRat = if x.negative then -|x.toRat| else |x.toRat| := by
  rw [abs_toRat, toRat]
  split <;> ring

end Binary64
end TickReplay
