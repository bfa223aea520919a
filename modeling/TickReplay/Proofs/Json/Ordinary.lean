import TickReplay.Proofs.Decimal.RoundTrip
import TickReplay.Proofs.Json.RealText

/- Magnitudes that survive the reader. Its significand is then a whole number without rounding, its
   power of ten is at most the 22nd and therefore exact as well, and one division is left, which rounds
   as the nearest magnitude of the written decimal is chosen. -/
namespace TickReplay.Json

open Binary64 (units unitsPerOne infinityCode fractions)

def mantissa (text : List Char) : List Char := (text.takeWhile (· != 'e')).filter Char.isDigit

/-- Zeros in front of the first other digit and behind the last one do not count. -/
def significantDigits (text : List Char) : Nat :=
  (((mantissa text).dropWhile (· == '0')).reverse.dropWhile (· == '0')).length

theorem mantissa_digits {ds : List Char} (digits : ∀ c ∈ ds, c.isDigit) (rest : List Char) :
    mantissa (ds ++ rest) = ds ++ mantissa rest := by
  have noMark : ∀ c ∈ ds, (c != 'e') = true := by
    intro c member
    refine bne_iff_ne.mpr fun mark => ?_
    have digit := digits c member
    rw [mark] at digit
    cases digit
  rw [mantissa, List.takeWhile_append_of_pos noMark, List.filter_append,
    List.filter_eq_self.mpr digits]
  rfl

theorem mantissa_point (rest : List Char) : mantissa ('.' :: rest) = mantissa rest := rfl

theorem mantissa_minus (rest : List Char) : mantissa ('-' :: rest) = mantissa rest := rfl

theorem mantissa_mark (rest : List Char) : mantissa ('e' :: rest) = [] := rfl

variable {x : Decimal}

theorem mantissa_positional (x : Decimal) : ∃ front back,
    mantissa (x.positional ['.', '0']) =
      List.replicate front '0' ++ x.digits ++ List.replicate back '0' := by
  have digits : ∀ c ∈ x.digits, c.isDigit := toDigits_digits x.coefficient
  cases exponent : x.exponent with
  | ofNat zeros =>
    refine ⟨0, zeros + 1, ?_⟩
    simp only [Decimal.positional, exponent, List.append_assoc]
    rw [mantissa_digits digits, mantissa_digits (zeros_digits zeros), List.replicate_succ']
    rfl
  | negSucc below =>
    by_cases inside : below + 1 < x.digits.length
    · refine ⟨0, 0, ?_⟩
      simp only [Decimal.positional, exponent, inside, ↓reduceIte]
      have front : ∀ c ∈ x.digits.take (x.digits.length - (below + 1)), c.isDigit :=
        fun c member => digits c (List.mem_of_mem_take member)
      have back : ∀ c ∈ x.digits.drop (x.digits.length - (below + 1)), c.isDigit :=
        fun c member => digits c (List.mem_of_mem_drop member)
      have tail := mantissa_digits back []
      rw [List.append_nil] at tail
      rw [mantissa_digits front, mantissa_point, tail]
      simp [mantissa]
    · refine ⟨below + 1 - x.digits.length + 1, 0, ?_⟩
      simp only [Decimal.positional, exponent, inside, ↓reduceIte]
      have all := append_digits (zeros_digits (below + 1 - x.digits.length)) digits
      have tail := mantissa_digits all []
      have zero : ∀ c ∈ ['0'], c.isDigit := List.all_eq_true.mp rfl
      have text := mantissa_digits zero
        ('.' :: (List.replicate (below + 1 - x.digits.length) '0' ++ x.digits))
      rw [List.append_nil] at tail
      rw [List.singleton_append, mantissa_point, tail] at text
      rw [text, List.replicate_succ]
      simp [mantissa]

theorem mantissa_scientific (x : Decimal) : mantissa x.scientific = x.digits := by
  have digits : ∀ c ∈ x.digits, c.isDigit := toDigits_digits x.coefficient
  cases front : x.digits with
  | nil => exact absurd front Nat.toDigits_ne_nil
  | cons c cs =>
    rw [front] at digits
    have first : ∀ d ∈ [c], d.isDigit := by simpa using digits c (by simp)
    cases cs with
    | nil =>
      simp only [Decimal.scientific, front]
      rw [mantissa_digits first, mantissa_mark]
      rfl
    | cons d ds =>
      have more : ∀ y ∈ d :: ds, y.isDigit := fun y member => digits y (List.mem_cons_of_mem c member)
      have text : x.scientific = [c] ++ '.' :: (d :: ds ++ 'e' :: exponentText x.order) := by
        simp [Decimal.scientific, front, exponentText]
      rw [text, mantissa_digits first, mantissa_point, mantissa_digits more, mantissa_mark]
      simp

theorem digits_last (last : x.coefficient % 10 ≠ 0) :
    ∃ cs c, x.digits = cs ++ [c] ∧ c ≠ '0' := by
  have other : ∀ d < 10, d ≠ 0 → d.digitChar ≠ '0' := by decide
  have digit := Nat.toDigits_of_lt_base (Nat.mod_lt x.coefficient (show 0 < 10 by decide))
  refine ⟨if x.coefficient < 10 then [] else Nat.toDigits 10 (x.coefficient / 10), _, ?_,
    other _ (Nat.mod_lt _ (by decide)) last⟩
  rw [Decimal.digits, ← digit]
  split
  · rename_i small
    rw [Nat.mod_eq_of_lt small, List.nil_append]
  · rw [Nat.toDigits_append_toDigits (by decide) (by omega) (Nat.mod_lt _ (by decide)),
      Nat.div_add_mod]

theorem dropWhile_zeros {c : Char} (other : c ≠ '0') (n : Nat) (cs : List Char) :
    (List.replicate n '0' ++ c :: cs).dropWhile (· == '0') = c :: cs := by
  rw [List.dropWhile_append_of_pos (by simp)]
  simp [other]

theorem significant_padded (positive : 0 < x.coefficient) (last : x.coefficient % 10 ≠ 0)
    (front back : Nat) :
    (((List.replicate front '0' ++ x.digits ++ List.replicate back '0').dropWhile
      (· == '0')).reverse.dropWhile (· == '0')).length = x.digits.length := by
  obtain ⟨c, cs, head, noZero⟩ := digits_lead positive
  obtain ⟨ds, d, tail, noZero'⟩ := digits_last last
  have left : (List.replicate front '0' ++ x.digits ++ List.replicate back '0').dropWhile
      (· == '0') = x.digits ++ List.replicate back '0' := by
    rw [head, List.append_assoc, List.cons_append]
    exact dropWhile_zeros noZero front _
  rw [left, tail]
  simp only [List.reverse_append, List.reverse_replicate, List.reverse_singleton,
    List.singleton_append]
  rw [dropWhile_zeros noZero' back]
  simp

theorem significantDigits_realText {x : Binary64} (nonzero : x.code ≠ 0) (finite : x.isFinite) :
    significantDigits (realText x) = (Decimal.shortest .toEven x.code).digits.length := by
  have inside : x.code < infinityCode := of_decide_eq_true finite
  have positive := Decimal.shortest_coefficient_pos .toEven nonzero
  have last := Decimal.shortest_last .toEven nonzero inside
  have sign : mantissa (realText x) = mantissa (magnitudeText x.code) := by
    cases negative : x.negative <;> simp [realText, finite, negative, mantissa_minus]
  have padded : ∃ front back, mantissa (magnitudeText x.code) =
      List.replicate front '0' ++ (Decimal.shortest .toEven x.code).digits ++
        List.replicate back '0' := by
    simp only [magnitudeText]
    split
    · exact mantissa_positional _
    · exact ⟨0, 0, by rw [mantissa_scientific]; simp⟩
  obtain ⟨front, back, text⟩ := padded
  rw [significantDigits, sign, text]
  exact significant_padded positive last front back

theorem power_exact {k : Nat} (small : k ≤ 22) : units (power k) = pow10 k * unitsPerOne := by
  have split : pow10 k = 5 ^ k * pow2 k := Nat.mul_pow 5 2 k
  have digits : 5 ^ k < 2 * fractions :=
    Nat.lt_of_le_of_lt (Nat.pow_le_pow_right (by decide) small) (by decide)
  rw [power, split, Binary64.units_ofNat digits (by omega)]

theorem scaled_exact {n k : Nat} (exact_ : units (Binary64.ofNat n) = n * unitsPerOne)
    (small : k < 22) :
    scaled n (.negSucc k) = some (Binary64.nearest (n * unitsPerOne) (pow10 (k + 1))) := by
  have once : k / 308 = 0 ∧ k % 308 = k := by omega
  simp only [scaled, once.1, once.2, lowered]
  rw [Binary64.div_exact exact_ (power_exact small) (Decimal.pow10_pos _)]

variable {code : Nat}

theorem lt_of_reads {coefficient zeros bound : Nat}
    (exact_ : units (Binary64.ofNat bound) = bound * unitsPerOne)
    (most : units code < bound * unitsPerOne) (reads : Decimal.Reads code coefficient zeros) :
    coefficient * pow10 zeros < bound := by
  refine Nat.not_le.mp fun large => ?_
  have order : Binary64.ofNat bound ≤ code := by
    rw [← reads]
    refine Binary64.nearest_le Nat.one_pos (Decimal.pow10_pos _) ?_
    have places : ((zeros : Nat) : Int).toNat = zeros ∧ (-((zeros : Nat) : Int)).toNat = 0 := by omega
    rw [places.1, places.2]
    exact Nat.mul_le_mul (Nat.mul_le_mul_right _ large) (Nat.le_refl 1)
  have magnitudes := Binary64.units_le order
  omega

/-- From 10^-8 on, fifteen digits reach no further than the twenty-second place behind the point. -/
theorem places_ordinary {k : Nat} (least : unitsPerOne ≤ units code * pow10 8)
    (nonzero : code ≠ 0) (few : (Decimal.shortest .toEven code).coefficient < pow10 15)
    (places : (Decimal.shortest .toEven code).exponent = .negSucc k) : k < 22 := by
  refine Nat.not_le.mp fun far => ?_
  obtain ⟨j, rfl⟩ : ∃ j, k = 22 + j := ⟨k - 22, by omega⟩
  have below := (Decimal.shortest_reads .toEven nonzero).1.below
  have split : (-(Int.negSucc (22 + j))).toNat = 8 + 15 + j ∧ (Int.negSucc (22 + j)).toNat = 0 := by
    omega
  have one : pow10 0 = 1 := rfl
  rw [places, Decimal.gridNum, Decimal.gridDen, split.1, split.2, one, Nat.mul_one,
    Decimal.pow10_add, Decimal.pow10_add] at below
  have large : pow10 15 ≤ units code * (pow10 8 * pow10 15 * pow10 j) / unitsPerOne := by
    refine (Nat.le_div_iff_mul_le Decimal.unitsPerOne_pos).mpr ?_
    calc
      pow10 15 * unitsPerOne ≤ pow10 15 * (units code * pow10 8) := Nat.mul_le_mul_left _ least
      _ ≤ pow10 15 * (units code * pow10 8) * pow10 j :=
        Nat.le_mul_of_pos_right _ (Decimal.pow10_pos j)
      _ = units code * (pow10 8 * pow10 15 * pow10 j) := by ring
  omega

theorem plain_whole {x : Decimal} {zeros : Nat} (whole : x.exponent = zeros)
    (positive : 0 < x.coefficient) (most : x.coefficient * pow10 zeros < pow10 15) :
    IsPlain x.order := by
  have some_ : 0 < x.digits.length := Nat.length_toDigits_pos
  have lead : pow10 (x.digits.length - 1) ≤ x.coefficient := by
    refine Nat.not_lt.mp fun less => ?_
    rcases Nat.eq_zero_or_pos (x.digits.length - 1) with single | more
    · rw [single] at less
      exact absurd less (Nat.not_lt.mpr positive)
    · have short := (Nat.length_toDigits_le_iff (b := 10) (by decide) more).mpr less
      change x.digits.length ≤ _ at short
      omega
  have order : x.digits.length - 1 + zeros < 15 := by
    refine Decimal.lt_of_pow10_lt (Nat.lt_of_le_of_lt ?_ most)
    rw [Decimal.pow10_add]
    exact Nat.mul_le_mul_right _ lead
  simp only [IsPlain, Decimal.order, whole]
  omega

/-- The tenths of a whole number below 10^15 are even and below 10^16, so they are exact. -/
theorem scaled_tenths {coefficient zeros : Nat} (most : coefficient * pow10 zeros < pow10 15) :
    scaled (coefficient * pow10 (zeros + 1)) (-1) = some (Binary64.ofDecimal coefficient zeros) := by
  have even : coefficient * pow10 (zeros + 1) = coefficient * pow10 zeros * 5 * pow2 1 := by
    rw [Decimal.pow10_succ, show pow2 1 = 2 from rfl]
    ring
  have digits : coefficient * pow10 zeros * 5 < 2 * fractions := by
    have bound : pow10 15 * 5 < 2 * fractions := by decide
    omega
  have exact_ := Binary64.units_ofNat digits (show 1 ≤ 971 by decide)
  rw [← even] at exact_
  have places : ((zeros : Nat) : Int).toNat = zeros ∧ (-((zeros : Nat) : Int)).toNat = 0 := by omega
  change scaled _ (.negSucc 0) = _
  rw [scaled_exact exact_ (by decide), Binary64.ofDecimal, places.1, places.2]
  refine congrArg some (Binary64.nearest_congr (Decimal.pow10_pos _) (Decimal.pow10_pos _) ?_)
  rw [Decimal.pow10_succ zeros, Decimal.pow10_succ 0]
  ring

theorem reread_ordinary (nonzero : code ≠ 0) (least : unitsPerOne ≤ units code * pow10 8)
    (most : units code < pow10 15 * unitsPerOne) (finite : code < infinityCode)
    (few : (Decimal.shortest .toEven code).coefficient < pow10 15) : reread code = some code := by
  have positive := Decimal.shortest_coefficient_pos .toEven nonzero
  have reads := Decimal.shortest_identifies .toEven nonzero finite
  cases exponent : (Decimal.shortest .toEven code).exponent with
  | ofNat zeros =>
    rw [exponent] at reads
    have below := lt_of_reads (Binary64.units_ofNat_of_lt (by decide)) most reads
    have plain := plain_whole exponent positive below
    have whole : 0 ≤ (Decimal.shortest .toEven code).exponent := by
      rw [exponent]
      exact Int.natCast_nonneg zeros
    simp only [reread, plain, whole, and_self, ↓reduceIte]
    rw [exponent]
    exact (scaled_tenths below).trans (congrArg some reads)
  | negSucc k =>
    rw [exponent] at reads
    have small := places_ordinary least nonzero few exponent
    have exact_ := Binary64.units_ofNat_of_lt (Nat.lt_trans few (by decide))
    have below : ¬ 0 ≤ (Decimal.shortest .toEven code).exponent := by
      rw [exponent]
      omega
    have places : (-(Int.negSucc k)).toNat = k + 1 ∧ (Int.negSucc k).toNat = 0 := by omega
    rw [Decimal.Reads, Binary64.ofDecimal, places.1, places.2, show pow10 0 = 1 from rfl,
      Nat.mul_one] at reads
    simp only [reread, below, and_false, ↓reduceIte]
    rw [exponent, scaled_exact exact_ small, reads]

end TickReplay.Json
