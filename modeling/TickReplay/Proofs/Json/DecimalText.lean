import TickReplay.Json.Number
import TickReplay.Proofs.Json.Numeral

/- How the written forms of a decimal read. Every form gives back the coefficient and the exponent,
   but for the point and the zero behind a whole decimal, which make tenths of it. -/
namespace TickReplay.Json

variable {x : Decimal} {rest : List Char}

theorem digits_value (x : Decimal) : Nat.ofDigitChars 10 x.digits 0 = x.coefficient :=
  Nat.ofDigitChars_ten_toDigits

theorem digits_lead (positive : 0 < x.coefficient) : ∃ c cs, x.digits = c :: cs ∧ c ≠ '0' :=
  toDigits_lead positive

theorem zeros_digits (n : Nat) : ∀ c ∈ List.replicate n '0', c.isDigit := by
  intro c member
  rw [(List.mem_replicate.mp member).2]
  decide

theorem append_digits {cs ds : List Char} (front : ∀ c ∈ cs, c.isDigit)
    (back : ∀ c ∈ ds, c.isDigit) : ∀ c ∈ cs ++ ds, c.isDigit := by
  intro c member
  rcases List.mem_append.mp member with inFront | inBack
  · exact front c inFront
  · exact back c inBack

/-- Written with a point and one zero, a whole decimal reads as ten times as many tenths. -/
theorem readUnsigned_whole (negative : Bool) {zeros : Nat} (whole : x.exponent = zeros)
    (positive : 0 < x.coefficient) (stop : EndsNumeral rest)
    (bound : x.coefficient * pow10 (zeros + 1) ≤ wordLimit) :
    readUnsigned negative (x.positional ['.', '0'] ++ rest) =
      scaledNumber negative (x.coefficient * pow10 (zeros + 1)) (-1) rest := by
  obtain ⟨c, cs, front, noZero⟩ := digits_lead positive
  have digits := append_digits (toDigits_digits x.coefficient) (zeros_digits zeros)
  change ∀ d ∈ x.digits ++ _, _ at digits
  have value : Nat.ofDigitChars 10 (x.digits ++ List.replicate zeros '0' ++ ['0']) 0 =
      x.coefficient * pow10 (zeros + 1) := by
    rw [Nat.ofDigitChars_append, Nat.ofDigitChars_append, digits_value,
      Nat.ofDigitChars_replicate_zero, ofDigitChars_digit, Nat.ofDigitChars_nil, pow10, Nat.pow_eq,
      Nat.pow_succ]
    simp only [Decimal.digitValue, Nat.sub_self, Nat.add_zero]
    rw [Nat.mul_comm, Nat.mul_comm (10 ^ zeros), Nat.mul_assoc]
  have text : x.positional ['.', '0'] ++ rest =
      x.digits ++ List.replicate zeros '0' ++ '.' :: (['0'] ++ rest) := by
    simp [Decimal.positional, whole]
  rw [front, List.cons_append] at digits value text
  have read := readUnsigned_point negative ['0'] digits noZero (by simp) (by simp) stop
    (by rw [value]; exact bound)
  rw [value] at read
  rw [text, read]
  rfl

theorem readUnsigned_inside (negative : Bool) {below : Nat} (places : x.exponent = .negSucc below)
    (inside : below + 1 < x.digits.length) (positive : 0 < x.coefficient) (whole : List Char)
    (stop : EndsNumeral rest) (bound : x.coefficient ≤ wordLimit) :
    readUnsigned negative (x.positional whole ++ rest) =
      scaledNumber negative x.coefficient x.exponent rest := by
  obtain ⟨c, cs, front, noZero⟩ := digits_lead positive
  have digits : ∀ d ∈ c :: cs, d.isDigit := front ▸ toDigits_digits x.coefficient
  have value : Nat.ofDigitChars 10 (c :: cs) 0 = x.coefficient := front ▸ digits_value x
  obtain ⟨k, cut⟩ : ∃ k, x.digits.length - (below + 1) = k + 1 :=
    ⟨x.digits.length - (below + 1) - 1, by omega⟩
  have back : (cs.drop k).length = below + 1 := by
    simp only [front, List.length_cons] at cut inside
    simp only [List.length_drop]
    omega
  have joined : c :: cs.take k ++ cs.drop k = c :: cs := by simp
  have text : x.positional whole ++ rest = c :: cs.take k ++ '.' :: (cs.drop k ++ rest) := by
    simp only [Decimal.positional, places, inside, ↓reduceIte, cut]
    simp [front]
  have shown : ∀ d ∈ c :: cs.take k, d.isDigit :=
    fun d member => digits d (List.take_subset (k + 1) (c :: cs) member)
  have hidden : ∀ d ∈ cs.drop k, d.isDigit :=
    fun d member => digits d (List.mem_cons_of_mem c (List.mem_of_mem_drop member))
  have read := readUnsigned_point negative (cs.drop k) shown noZero
    (List.ne_nil_of_length_eq_add_one back) hidden stop (by rw [joined, value]; exact bound)
  rw [joined, value, back] at read
  rw [text, read, places]
  rfl

theorem readUnsigned_outside (negative : Bool) {below : Nat} (places : x.exponent = .negSucc below)
    (outside : ¬ below + 1 < x.digits.length) (whole : List Char) (stop : EndsNumeral rest)
    (bound : x.coefficient ≤ wordLimit) :
    readUnsigned negative (x.positional whole ++ rest) =
      scaledNumber negative x.coefficient x.exponent rest := by
  have digits := append_digits (zeros_digits (below + 1 - x.digits.length))
    (toDigits_digits x.coefficient)
  change ∀ d ∈ _ ++ x.digits, _ at digits
  have value : Nat.ofDigitChars 10 (List.replicate (below + 1 - x.digits.length) '0' ++ x.digits) 0
      = x.coefficient := by
    rw [Nat.ofDigitChars_append, Nat.ofDigitChars_replicate_zero, Nat.mul_zero, digits_value]
  have length : (List.replicate (below + 1 - x.digits.length) '0' ++ x.digits).length =
      below + 1 := by
    simp only [List.length_append, List.length_replicate]
    omega
  have text : x.positional whole ++ rest = '0' :: '.' ::
      (List.replicate (below + 1 - x.digits.length) '0' ++ x.digits ++ rest) := by
    simp [Decimal.positional, places, outside]
  have read := readUnsigned_zero_point negative _ (List.ne_nil_of_length_eq_add_one length) digits
    stop (by rw [value]; exact bound)
  rw [value, length] at read
  rw [text, read, places]
  rfl

theorem readUnsigned_scientific (negative : Bool) (positive : 0 < x.coefficient)
    (stop : EndsNumeral rest) (bound : x.coefficient ≤ wordLimit)
    (near : x.order.natAbs ≤ exponentLimit) :
    readUnsigned negative (x.scientific ++ rest) =
      scaledNumber negative x.coefficient x.exponent rest := by
  obtain ⟨c, cs, front, noZero⟩ := digits_lead positive
  have digits : ∀ d ∈ c :: cs, d.isDigit := front ▸ toDigits_digits x.coefficient
  have value : Nat.ofDigitChars 10 (c :: cs) 0 = x.coefficient := front ▸ digits_value x
  have order : x.exponent = -(cs.length : Int) + x.order := by
    simp only [Decimal.order, front, List.length_cons]
    omega
  have tail := readExponent_exponentText negative x.coefficient (-cs.length) x.order stop.digits near
  rw [← order] at tail
  have lead : ∀ d ∈ [c], d.isDigit := by simpa using digits c (by simp)
  cases cs with
  | nil =>
    have text : x.scientific ++ rest = [c] ++ 'e' :: (exponentText x.order ++ rest) := by
      simp [Decimal.scientific, front, exponentText]
    rw [text, readUnsigned_run negative lead noZero (endsDigits_cons _ (by decide))
      (by rw [value]; exact bound), value, readAfterWhole_mark, ← tail]
    rfl
  | cons d ds =>
    have text : x.scientific ++ rest =
        [c] ++ '.' :: (d :: ds ++ 'e' :: (exponentText x.order ++ rest)) := by
      simp [Decimal.scientific, front, exponentText]
    have joined : Nat.ofDigitChars 10 (d :: ds) (Nat.ofDigitChars 10 [c] 0) = x.coefficient := by
      rw [← Nat.ofDigitChars_append]
      exact value
    have first := le_ofDigitChars (d :: ds) (Nat.ofDigitChars 10 [c] 0)
    have fraction := readFraction_mark negative (Nat.ofDigitChars 10 [c] 0) (d :: ds)
      (exponentText x.order ++ rest) (by simp)
      (fun y member => digits y (List.mem_cons_of_mem c member)) (by rw [joined]; exact bound)
    rw [joined] at first fraction
    rw [text, readUnsigned_run negative lead noZero (endsDigits_cons _ (by decide)) (by omega),
      readAfterWhole_point, fraction, tail]

end TickReplay.Json
