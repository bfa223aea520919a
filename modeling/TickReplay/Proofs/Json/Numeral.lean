import TickReplay.Proofs.Json.Digits

/- Numerals that have been written read back. An integer reads as itself. The written form of a
   decimal fixes which significand and which exponent the reader scales; only the scaling can lose
   the value. -/
namespace TickReplay.Json

def EndsNumeral (rest : List Char) : Prop :=
  ∀ c ∈ rest.head?, c.isDigit = false ∧ c ≠ '.' ∧ isExponentMark c = false

theorem endsNumeral_nil : EndsNumeral [] := by simp [EndsNumeral]

theorem EndsNumeral.digits {rest : List Char} (stop : EndsNumeral rest) : EndsDigits rest :=
  fun c member => (stop c member).1

theorem readUnsigned_zero (negative : Bool) {rest : List Char} (stop : EndsDigits rest) :
    readUnsigned negative ('0' :: rest) = readAfterWhole negative 0 0 rest := by
  cases rest with
  | nil => rfl
  | cons c rest =>
    have other : c.isDigit = false := stop c rfl
    have zero : '0'.isDigit = true := by decide
    simp [readUnsigned, other, zero]

theorem readUnsigned_run (negative : Bool) {c : Char} {cs rest : List Char}
    (digits : ∀ x ∈ c :: cs, x.isDigit) (lead : c ≠ '0') (stop : EndsDigits rest)
    (bound : Nat.ofDigitChars 10 (c :: cs) 0 ≤ wordLimit) :
    readUnsigned negative (c :: cs ++ rest) =
      readAfterWhole negative (Nat.ofDigitChars 10 (c :: cs) 0) 0 rest := by
  have digit : c.isDigit := digits c (by simp)
  rw [ofDigitChars_digit, Nat.mul_zero, Nat.zero_add] at bound ⊢
  have run := wholeDigits_run (fun x member => digits x (by simp [member])) stop _ bound
  simp [readUnsigned, digit, lead, run]

theorem readUnsigned_toDigits (negative : Bool) (n : Nat) {rest : List Char}
    (stop : EndsDigits rest) (bound : n ≤ wordLimit) :
    readUnsigned negative (Nat.toDigits 10 n ++ rest) = readAfterWhole negative n 0 rest := by
  by_cases zero : n = 0
  · subst n
    simpa using readUnsigned_zero negative stop
  · obtain ⟨c, cs, front, lead⟩ := toDigits_lead (Nat.pos_of_ne_zero zero)
    have digits := toDigits_digits n
    have value : Nat.ofDigitChars 10 (Nat.toDigits 10 n) 0 = n := Nat.ofDigitChars_ten_toDigits
    rw [front] at digits value ⊢
    have run := readUnsigned_run negative digits lead stop (by rw [value]; exact bound)
    rw [value] at run
    exact run

theorem readAfterWhole_end (negative : Bool) (n : Nat) {rest : List Char}
    (stop : EndsNumeral rest) :
    readAfterWhole negative n 0 rest = .ok (wholeNumber negative n, rest) := by
  cases rest with
  | nil => rfl
  | cons c rest =>
    obtain ⟨_, noPoint, noMark⟩ := stop c rfl
    simp [readAfterWhole, noPoint, noMark]

theorem readAfterWhole_point (negative : Bool) (n : Nat) (rest : List Char) :
    readAfterWhole negative n 0 ('.' :: rest) = readFraction negative n 0 rest := by
  simp [readAfterWhole]

theorem readAfterWhole_mark (negative : Bool) (n : Nat) (rest : List Char) :
    readAfterWhole negative n 0 ('e' :: rest) = readExponent negative n 0 rest := by
  simp [readAfterWhole, isExponentMark]

theorem readFraction_run (negative : Bool) (n : Nat) {rest : List Char} (ds : List Char)
    (some : ds ≠ []) (digits : ∀ c ∈ ds, c.isDigit) (stop : EndsNumeral rest)
    (bound : Nat.ofDigitChars 10 ds n ≤ wordLimit) :
    readFraction negative n 0 (ds ++ rest) =
      scaledNumber negative (Nat.ofDigitChars 10 ds n) (-ds.length) rest := by
  have run := fractionDigits_run digits stop.digits n 0 bound
  cases ds with
  | nil => contradiction
  | cons d ds =>
    have digit : d.isDigit := digits d (by simp)
    simp only [List.cons_append] at run
    simp only [readFraction, List.cons_append, digit, run]
    cases rest with
    | nil => simp
    | cons c rest =>
      obtain ⟨_, _, noMark⟩ := stop c rfl
      simp [noMark]

theorem readFraction_mark (negative : Bool) (n : Nat) (ds rest : List Char) (some : ds ≠ [])
    (digits : ∀ c ∈ ds, c.isDigit) (bound : Nat.ofDigitChars 10 ds n ≤ wordLimit) :
    readFraction negative n 0 (ds ++ 'e' :: rest) =
      readExponent negative (Nat.ofDigitChars 10 ds n) (-ds.length) rest := by
  have run := fractionDigits_run digits (endsDigits_cons (c := 'e') rest (by decide)) n 0 bound
  cases ds with
  | nil => contradiction
  | cons d ds =>
    have digit : d.isDigit := digits d (by simp)
    simp only [List.cons_append] at run
    simp [readFraction, digit, run, isExponentMark]

theorem readUnsigned_point (negative : Bool) {c : Char} {cs rest : List Char} (ds : List Char)
    (whole : ∀ x ∈ c :: cs, x.isDigit) (lead : c ≠ '0') (some : ds ≠ [])
    (digits : ∀ x ∈ ds, x.isDigit) (stop : EndsNumeral rest)
    (bound : Nat.ofDigitChars 10 (c :: cs ++ ds) 0 ≤ wordLimit) :
    readUnsigned negative (c :: cs ++ '.' :: (ds ++ rest)) =
      scaledNumber negative (Nat.ofDigitChars 10 (c :: cs ++ ds) 0) (-ds.length) rest := by
  rw [Nat.ofDigitChars_append] at bound ⊢
  have front := Nat.le_trans (le_ofDigitChars ds _) bound
  rw [readUnsigned_run negative whole lead (endsDigits_cons _ (by decide)) front,
    readAfterWhole_point, readFraction_run negative _ ds some digits stop bound]

theorem readUnsigned_zero_point (negative : Bool) {rest : List Char} (ds : List Char)
    (some : ds ≠ [])
    (digits : ∀ x ∈ ds, x.isDigit) (stop : EndsNumeral rest)
    (bound : Nat.ofDigitChars 10 ds 0 ≤ wordLimit) :
    readUnsigned negative ('0' :: '.' :: (ds ++ rest)) =
      scaledNumber negative (Nat.ofDigitChars 10 ds 0) (-ds.length) rest := by
  rw [readUnsigned_zero negative (endsDigits_cons _ (by decide)), readAfterWhole_point,
    readFraction_run negative 0 ds some digits stop bound]

def exponentText (order : Int) : List Char :=
  (if order < 0 then '-' else '+') :: Nat.toDigits 10 order.natAbs

theorem readExponent_exponentText (negative : Bool) (significand : Nat) (exponent order : Int)
    {rest : List Char} (stop : EndsDigits rest) (bound : order.natAbs ≤ exponentLimit) :
    readExponent negative significand exponent (exponentText order ++ rest) =
      scaledNumber negative significand (exponent + order) rest := by
  have sign : Decimal.splitSign (exponentText order ++ rest) =
      (decide (order < 0), Nat.toDigits 10 order.natAbs ++ rest) := by
    by_cases below : order < 0 <;> simp [exponentText, below, Decimal.splitSign]
  have digits := toDigits_digits order.natAbs
  have value : Nat.ofDigitChars 10 (Nat.toDigits 10 order.natAbs) 0 = order.natAbs :=
    Nat.ofDigitChars_ten_toDigits
  cases front : Nat.toDigits 10 order.natAbs with
  | nil => simp at front
  | cons c cs =>
    rw [front] at sign digits value
    have digit : c.isDigit := digits c (by simp)
    rw [ofDigitChars_digit, Nat.mul_zero, Nat.zero_add] at value
    have run := exponentDigits_run (fun x member => digits x (by simp [member])) stop _
      (Nat.le_trans (Nat.le_of_eq value) bound)
    rw [value] at run
    simp only [readExponent, sign, List.cons_append, digit, run, Bool.not_true, Bool.false_eq_true,
      ↓reduceIte]
    by_cases below : order < 0
    · have shift : exponent - (order.natAbs : Int) = exponent + order := by omega
      simp only [below, decide_true, ↓reduceIte, shift]
    · have shift : exponent + (order.natAbs : Int) = exponent + order := by omega
      simp only [below, decide_false, Bool.false_eq_true, ↓reduceIte, shift]

end TickReplay.Json
