import TickReplay.Proofs.Json.Literal
import TickReplay.Proofs.Json.Scaling

/- What a literal denotes. As many of its digits as fit go into one word, first the whole ones and then
   those of the fraction; the word is scaled by the exponent, one power of ten up for each whole digit
   left out and one down for each digit of the fraction taken. -/
namespace TickReplay.Json

open Decimal (digitValue)

/-- As many digits as fit the word behind what it holds already, and the others. -/
structure Taken (held : Nat) (ds front back : List Char) : Prop where
  split : ds = front ++ back
  fits : Nat.ofDigitChars 10 front held ≤ wordLimit
  full : ∀ d ∈ back.head?, wordLimit < Nat.ofDigitChars 10 (front ++ [d]) held

theorem taken_nil {held : Nat} (small : held ≤ wordLimit) : Taken held [] [] [] :=
  ⟨rfl, small, by simp⟩

theorem taken_none {held : Nat} (small : held ≤ wordLimit) {c : Char} (ds : List Char)
    (beyond : ¬ 10 * held + digitValue c ≤ wordLimit) : Taken held (c :: ds) [] (c :: ds) := by
  refine ⟨rfl, small, ?_⟩
  intro d member
  cases Option.mem_some.mp member
  rw [List.nil_append, ofDigitChars_digit]
  exact Nat.lt_of_not_le beyond

theorem Taken.cons {held : Nat} {c : Char} {ds front back : List Char}
    (taken : Taken (10 * held + digitValue c) ds front back) :
    Taken held (c :: ds) (c :: front) back := by
  refine ⟨by rw [taken.split, List.cons_append], ?_, ?_⟩
  · rw [ofDigitChars_digit]
    exact taken.fits
  · intro d member
    rw [List.cons_append, ofDigitChars_digit]
    exact taken.full d member

theorem Taken.stops {held : Nat} {ds front more rest : List Char}
    (taken : Taken held ds front (more ++ rest))
    (fits : Nat.ofDigitChars 10 (front ++ more) held ≤ wordLimit) : more = [] := by
  cases more with
  | nil => rfl
  | cons d more =>
    have full := taken.full d rfl
    rw [show front ++ d :: more = front ++ [d] ++ more by simp, Nat.ofDigitChars_append] at fits
    have grows := le_ofDigitChars more (Nat.ofDigitChars 10 (front ++ [d]) held)
    omega

theorem Taken.unique {held : Nat} {ds front front' back back' : List Char}
    (one : Taken held ds front back) (other : Taken held ds front' back') :
    front = front' ∧ back = back' := by
  rcases List.append_eq_append_iff.mp (one.split.symm.trans other.split) with
    ⟨more, rfl, rfl⟩ | ⟨more, rfl, rfl⟩
  · cases one.stops other.fits
    simp
  · cases other.stops one.fits
    simp

theorem wholeDigits_left {ds : List Char} (digits : ∀ c ∈ ds, c.isDigit) (n excess : Nat) :
    wholeDigits n (excess + 1) ds = (n, excess + 1 + ds.length, []) := by
  induction ds generalizing excess with
  | nil => rfl
  | cons c ds ih =>
    have digit : c.isDigit := digits c (by simp)
    have left : ¬(excess + 1 = 0 ∧ 10 * n + digitValue c ≤ wordLimit) := by omega
    rw [wholeDigits, digit, if_neg left, ih fun x member => digits x (by simp [member])]
    simp only [Bool.not_true, Bool.false_eq_true, if_false, List.length_cons, Prod.mk.injEq,
      true_and, and_true]
    omega

theorem wholeDigits_taken {ds : List Char} (digits : ∀ c ∈ ds, c.isDigit) {held : Nat}
    (small : held ≤ wordLimit) : ∃ front back, Taken held ds front back ∧
      wholeDigits held 0 ds = (Nat.ofDigitChars 10 front held, back.length, []) := by
  induction ds generalizing held with
  | nil => exact ⟨[], [], taken_nil small, rfl⟩
  | cons c ds ih =>
    have digit : c.isDigit := digits c (by simp)
    have others : ∀ x ∈ ds, x.isDigit := fun x member => digits x (by simp [member])
    by_cases fits : 10 * held + digitValue c ≤ wordLimit
    · obtain ⟨front, back, taken, run⟩ := ih others fits
      refine ⟨c :: front, back, taken.cons, ?_⟩
      simp [wholeDigits, digit, fits, run, ofDigitChars_digit]
    · refine ⟨[], c :: ds, taken_none small ds fits, ?_⟩
      have left := wholeDigits_left others held 0
      simp [wholeDigits, digit, fits, left]
      omega

theorem fractionDigits_taken {ds : List Char} (digits : ∀ c ∈ ds, c.isDigit) {held : Nat}
    (small : held ≤ wordLimit) (places : Nat) : ∃ front back rest, Taken held ds front back ∧
      fractionDigits held places ds =
        (Nat.ofDigitChars 10 front held, places + front.length, rest) := by
  induction ds generalizing held places with
  | nil => exact ⟨[], [], [], taken_nil small, rfl⟩
  | cons c ds ih =>
    have digit : c.isDigit := digits c (by simp)
    by_cases fits : 10 * held + digitValue c ≤ wordLimit
    · obtain ⟨front, back, rest, taken, run⟩ :=
        ih (fun x member => digits x (by simp [member])) fits (places + 1)
      refine ⟨c :: front, back, rest, taken.cons, ?_⟩
      simp only [fractionDigits, digit, Bool.not_true, Bool.false_eq_true, if_false, fits, if_true,
        run, ofDigitChars_digit, List.length_cons, Prod.mk.injEq, true_and, and_true]
      omega
    · refine ⟨[], c :: ds, ds.dropWhile Char.isDigit, taken_none small ds fits, ?_⟩
      simp [fractionDigits, digit, fits]

theorem exponentDigits_beyond {ds : List Char} (digits : ∀ c ∈ ds, c.isDigit) {n : Nat}
    (beyond : exponentLimit < Nat.ofDigitChars 10 ds n) (small : n ≤ exponentLimit) :
    ∃ more, exponentDigits n ds = .error more := by
  induction ds generalizing n with
  | nil => exact absurd small (Nat.not_le_of_lt beyond)
  | cons c ds ih =>
    have digit : c.isDigit := digits c (by simp)
    rw [ofDigitChars_digit] at beyond
    by_cases fits : 10 * n + digitValue c ≤ exponentLimit
    · obtain ⟨more, run⟩ := ih (fun x member => digits x (by simp [member])) beyond fits
      exact ⟨more, by simp [exponentDigits, digit, fits, run]⟩
    · exact ⟨ds, by simp [exponentDigits, digit, fits]⟩

theorem mul_one_code {code : Nat} (bounded : code ≤ Binary64.infinityCode) :
    Binary64.mul code (power 0) = code := by
  have one : Binary64.units (power 0) = Binary64.unitsPerOne := by decide +kernel
  rw [Binary64.mul, one]
  refine Eq.trans (Binary64.nearest_congr Decimal.unitsPerOne_pos Nat.one_pos ?_)
    (Binary64.nearest_units bounded)
  exact Nat.mul_one _

theorem scaled_whole {n : Nat} (fits : n ≤ wordLimit) : scaled n 0 = some (Binary64.ofNat n) := by
  have most : Binary64.ofNat wordLimit < Binary64.infinityCode := by decide +kernel
  have finite := Nat.lt_of_le_of_lt (Binary64.ofNat_le fits) most
  have whole := scaled_power n (Nat.zero_le 308)
  rw [mul_one_code (Nat.le_of_lt finite), if_neg (Nat.ne_of_lt finite)] at whole
  exact whole

namespace Literal

def wholeValue (l : Literal) : Nat := Nat.ofDigitChars 10 l.whole.chars 0

def value (l : Literal) : Int := if l.negative then -(l.wholeValue : Int) else l.wholeValue

def exponentValue (l : Literal) : Int :=
  match l.exponent with
  | none => 0
  | some e =>
    let shift : Int := Nat.ofDigitChars 10 e.digits.chars 0
    if e.sign = .minus then -shift else shift

/-- The code that a literal is converted to. An exponent beyond a signed word of 32 bits leaves nothing
    but zero, and that only where the digits are zero or the exponent is negative. -/
inductive Converts (l : Literal) : Nat → Prop where
  | scaled {front excess places dropped : List Char} {code : Nat}
      (whole : Taken 0 l.whole.chars front excess)
      (fraction : Taken (Nat.ofDigitChars 10 front 0) (fractionChars l.fraction) places dropped)
      (small : l.exponentValue.natAbs ≤ exponentLimit)
      (scale : Json.scaled (Nat.ofDigitChars 10 (front ++ places) 0)
        (excess.length - places.length + l.exponentValue) = some code) : Converts l code
  | vanished {front excess places dropped : List Char}
      (whole : Taken 0 l.whole.chars front excess)
      (fraction : Taken (Nat.ofDigitChars 10 front 0) (fractionChars l.fraction) places dropped)
      (beyond : exponentLimit < l.exponentValue.natAbs)
      (zero : Nat.ofDigitChars 10 (front ++ places) 0 = 0 ∨ l.exponentValue < 0) : Converts l 0

theorem fraction_digits (l : Literal) : ∀ c ∈ fractionChars l.fraction, c.isDigit := by
  cases l.fraction with
  | none => simp [fractionChars]
  | some ds => exact ds.digits

theorem digitsPart_taken (l : Literal) : ∃ front excess places dropped,
    Taken 0 l.whole.chars front excess ∧
    Taken (Nat.ofDigitChars 10 front 0) (fractionChars l.fraction) places dropped ∧
    l.digitsPart =
      (Nat.ofDigitChars 10 (front ++ places) 0, (excess.length : Int) - places.length) := by
  obtain ⟨front, excess, whole, run⟩ := wholeDigits_taken l.whole.digits (Nat.zero_le wordLimit)
  obtain ⟨places, dropped, rest, fraction, tail⟩ :=
    fractionDigits_taken l.fraction_digits whole.fits 0
  refine ⟨front, excess, places, dropped, whole, fraction, ?_⟩
  simp only [digitsPart, wholePart, run, tail, Nat.zero_add, Nat.ofDigitChars_append]

theorem exponentValue_natAbs {l : Literal} {e : Exponent} (given : l.exponent = some e) :
    l.exponentValue.natAbs = Nat.ofDigitChars 10 e.digits.chars 0 := by
  simp only [exponentValue, given]
  split <;> omega

theorem scaleBy_iff (l : Literal) (significand : Nat) (exponent : Int) (code : Nat) :
    scaleBy significand exponent l.exponent = some code ↔
      (l.exponentValue.natAbs ≤ exponentLimit ∧
        Json.scaled significand (exponent + l.exponentValue) = some code) ∨
      (exponentLimit < l.exponentValue.natAbs ∧
        (significand = 0 ∨ l.exponentValue < 0) ∧ code = 0) := by
  cases given : l.exponent with
  | none => simp [scaleBy, exponentValue, given]
  | some e =>
    have size := exponentValue_natAbs given
    rw [scaleBy, Exponent.scale]
    by_cases small : l.exponentValue.natAbs ≤ exponentLimit
    · have run := exponentDigits_run e.digits.digits endsDigits_nil 0 (size ▸ small)
      rw [List.append_nil] at run
      have shifted : (if e.sign = .minus then exponent - (Nat.ofDigitChars 10 e.digits.chars 0 : Nat)
          else exponent + (Nat.ofDigitChars 10 e.digits.chars 0 : Nat)) =
          exponent + l.exponentValue := by
        simp only [exponentValue, given]
        split <;> omega
      simp only [run, shifted, small, Nat.not_lt.mpr small, true_and, false_and, or_false]
    · have beyond : exponentLimit < l.exponentValue.natAbs := Nat.lt_of_not_le small
      obtain ⟨more, run⟩ := exponentDigits_beyond e.digits.digits (size ▸ beyond) (by decide)
      have below : l.exponentValue < 0 ↔ e.sign = .minus := by
        simp only [exponentValue, given] at beyond ⊢
        split <;> rename_i sign <;> simp only [sign, iff_true, iff_false] <;> omega
      simp only [run, small, beyond, false_and, true_and, false_or, below]
      by_cases zero : significand = 0
      · simp [zero, eq_comm]
      · by_cases sign : e.sign = .minus <;> simp [zero, sign, eq_comm]

theorem converts_iff (l : Literal) (code : Nat) : l.Converts code ↔ l.magnitude = some code := by
  obtain ⟨front, excess, places, dropped, whole, fraction, part⟩ := l.digitsPart_taken
  rw [magnitude, scaleBy_iff, part]
  constructor
  · intro converts
    cases converts with
    | scaled whole' fraction' small scale =>
      obtain ⟨rfl, rfl⟩ := whole.unique whole'
      obtain ⟨rfl, rfl⟩ := fraction.unique fraction'
      exact .inl ⟨small, scale⟩
    | vanished whole' fraction' beyond zero =>
      obtain ⟨rfl, rfl⟩ := whole.unique whole'
      obtain ⟨rfl, rfl⟩ := fraction.unique fraction'
      exact .inr ⟨beyond, zero, rfl⟩
  · intro given
    rcases given with ⟨small, scale⟩ | ⟨beyond, zero, rfl⟩
    · exact .scaled whole fraction small scale
    · exact .vanished whole fraction beyond zero

theorem wholePart_le (l : Literal) : l.wholePart.1 ≤ wordLimit := by
  obtain ⟨front, excess, whole, run⟩ := wholeDigits_taken l.whole.digits (Nat.zero_le wordLimit)
  rw [wholePart, run]
  exact whole.fits

theorem wholePart_of_fits {l : Literal} (fits : l.wholeValue ≤ wordLimit) :
    l.wholePart = (l.wholeValue, 0) := by
  have run := wholeDigits_run l.whole.digits endsDigits_nil 0 fits
  rw [List.append_nil] at run
  rw [wholePart, run]
  rfl

theorem wholeValue_of_fit {l : Literal} (fit : l.wholePart.2 = 0) :
    l.wholePart.1 = l.wholeValue := by
  obtain ⟨front, excess, whole, run⟩ := wholeDigits_taken l.whole.digits (Nat.zero_le wordLimit)
  rw [wholePart, run] at fit ⊢
  cases List.length_eq_zero_iff.mp fit
  rw [wholeValue, whole.split, List.append_nil]

theorem whole_of_zero {l : Literal} (zero : l.wholeValue = 0) : l.whole.chars = ['0'] := by
  obtain ⟨c, cs, front, digit⟩ := l.whole.lead
  refine l.canonical ?_
  unfold wholeValue at zero
  rw [front, ofDigitChars_digit] at zero
  have small := le_ofDigitChars cs (10 * 0 + digitValue c)
  have least : digitValue c = 0 := by omega
  rw [front, List.head?_cons, digitValue_zero digit least]

theorem text_of_integer {l : Literal} (integer : l.isInteger) :
    l.text = if l.negative then '-' :: l.whole.chars else l.whole.chars := by
  obtain ⟨noFraction, noExponent⟩ := Bool.and_eq_true_iff.mp integer
  rw [Option.isNone_iff_eq_none] at noFraction noExponent
  simp [text, unsignedText, noFraction, noExponent, fractionText, exponentPart]

theorem minus_zero_iff {l : Literal} (integer : l.isInteger) :
    l.text = ['-', '0'] ↔ l.negative ∧ l.wholeValue = 0 := by
  rw [text_of_integer integer]
  constructor
  · intro same
    cases sign : l.negative with
    | true =>
      have whole : l.whole.chars = ['0'] := by simpa [sign] using same
      refine ⟨rfl, ?_⟩
      rw [wholeValue, whole]
      rfl
    | false =>
      have whole : l.whole.chars = ['-', '0'] := by simpa [sign] using same
      have digit := l.whole.digits '-' (by simp [whole])
      contradiction
  · intro given
    rcases given with ⟨sign, zero⟩
    rw [if_pos sign, whole_of_zero zero]

/-- The literals that denote an integer: those without point and exponent, minus zero excepted, as
    far as a signed word holds the negative ones and an unsigned word the others. -/
theorem number_integer_iff (l : Literal) (n : Int) :
    l.number = some (.integer n) ↔
      l.isInteger ∧ l.text ≠ ['-', '0'] ∧ l.value = n ∧ -(half64 : Int) ≤ n ∧ n ≤ wordLimit := by
  have wide : half64 ≤ wordLimit := by decide
  by_cases integer : l.isInteger
  swap
  · simp only [number, integer, false_and, if_false, Bool.false_eq_true, iff_false]
    cases l.magnitude <;> simp [signedReal]
  rw [ne_eq, minus_zero_iff integer]
  simp only [number, integer, true_and]
  by_cases fit : l.wholePart.2 = 0
  · have bound := l.wholePart_le
    rw [if_pos fit, wholeValue_of_fit fit]
    rw [wholeValue_of_fit fit] at bound
    cases sign : l.negative with
    | false =>
      simp only [wholeNumber, value, sign, Bool.not_false, if_true, Option.some.injEq,
        Number.integer.injEq, Bool.false_eq_true, false_and, not_false_eq_true, true_and, if_false]
      omega
    | true =>
      simp only [wholeNumber, value, sign, Bool.not_true, Bool.false_eq_true, if_false, if_true,
        true_and]
      split
      · simp only [Option.some.injEq, Number.integer.injEq]
        omega
      · simp only [Option.some.injEq, reduceCtorEq, false_iff]
        omega
  · rw [if_neg fit]
    have real : l.magnitude.map (signedReal l.negative) ≠ some (.integer n) := by
      cases l.magnitude <;> simp [signedReal]
    simp only [real, false_iff]
    intro given
    rcases given with ⟨_, same, low, high⟩
    refine fit ?_
    have small : l.wholeValue ≤ wordLimit := by
      unfold value at same
      split at same <;> omega
    rw [wholePart_of_fits small]

end Literal

end TickReplay.Json
