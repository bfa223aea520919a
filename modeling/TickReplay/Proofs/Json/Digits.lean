import TickReplay.Json.Numeral

/- Runs of decimal digits. A reader that meets a run and then something else takes exactly the run,
   as long as the value stays within its word. -/
namespace TickReplay.Json

open Decimal (digitValue)

def EndsDigits (rest : List Char) : Prop := ∀ c ∈ rest.head?, c.isDigit = false

theorem endsDigits_cons {c : Char} (rest : List Char) (other : c.isDigit = false) :
    EndsDigits (c :: rest) := by
  simpa [EndsDigits] using other

theorem isDigit_bounds {c : Char} (digit : c.isDigit) : 48 ≤ c.toNat ∧ c.toNat ≤ 57 := by
  simp only [Char.isDigit, Bool.and_eq_true, decide_eq_true_eq, UInt32.le_iff_toNat_le] at digit
  exact digit

theorem le_ofDigitChars (ds : List Char) (n : Nat) : n ≤ Nat.ofDigitChars 10 ds n := by
  rw [Nat.ofDigitChars_eq_ofDigitChars_zero]
  have positive : 0 < 10 ^ ds.length := Nat.pow_pos (by decide)
  have grows := Nat.le_mul_of_pos_left n positive
  omega

theorem ofDigitChars_digit (c : Char) (ds : List Char) (n : Nat) :
    Nat.ofDigitChars 10 (c :: ds) n = Nat.ofDigitChars 10 ds (10 * n + digitValue c) :=
  Nat.ofDigitChars_cons

theorem wholeDigits_end {rest : List Char} (stop : EndsDigits rest) (n excess : Nat) :
    wholeDigits n excess rest = (n, excess, rest) := by
  cases rest with
  | nil => rfl
  | cons c rest =>
    have other : c.isDigit = false := stop c rfl
    simp [wholeDigits, other]

theorem wholeDigits_run {ds rest : List Char} (digits : ∀ c ∈ ds, c.isDigit)
    (stop : EndsDigits rest) (n : Nat) (bound : Nat.ofDigitChars 10 ds n ≤ wordLimit) :
    wholeDigits n 0 (ds ++ rest) = (Nat.ofDigitChars 10 ds n, 0, rest) := by
  induction ds generalizing n with
  | nil => simpa using wholeDigits_end stop n 0
  | cons c ds ih =>
    have digit : c.isDigit := digits c (by simp)
    rw [ofDigitChars_digit] at bound ⊢
    have fits := Nat.le_trans (le_ofDigitChars ds (10 * n + digitValue c)) bound
    have tail := ih (fun x member => digits x (by simp [member])) _ bound
    simp [wholeDigits, digit, fits, tail]

theorem fractionDigits_end {rest : List Char} (stop : EndsDigits rest) (n places : Nat) :
    fractionDigits n places rest = (n, places, rest) := by
  cases rest with
  | nil => rfl
  | cons c rest =>
    have other : c.isDigit = false := stop c rfl
    simp [fractionDigits, other]

theorem fractionDigits_run {ds rest : List Char} (digits : ∀ c ∈ ds, c.isDigit)
    (stop : EndsDigits rest) (n places : Nat) (bound : Nat.ofDigitChars 10 ds n ≤ wordLimit) :
    fractionDigits n places (ds ++ rest) =
      (Nat.ofDigitChars 10 ds n, places + ds.length, rest) := by
  induction ds generalizing n places with
  | nil => simpa using fractionDigits_end stop n places
  | cons c ds ih =>
    have digit : c.isDigit := digits c (by simp)
    rw [ofDigitChars_digit] at bound ⊢
    have fits := Nat.le_trans (le_ofDigitChars ds (10 * n + digitValue c)) bound
    have tail := ih (fun x member => digits x (by simp [member])) _ (places + 1) bound
    simp [fractionDigits, digit, fits, tail]
    omega

theorem exponentDigits_end {rest : List Char} (stop : EndsDigits rest) (n : Nat) :
    exponentDigits n rest = .ok (n, rest) := by
  cases rest with
  | nil => rfl
  | cons c rest =>
    have other : c.isDigit = false := stop c rfl
    simp [exponentDigits, other]

theorem exponentDigits_run {ds rest : List Char} (digits : ∀ c ∈ ds, c.isDigit)
    (stop : EndsDigits rest) (n : Nat) (bound : Nat.ofDigitChars 10 ds n ≤ exponentLimit) :
    exponentDigits n (ds ++ rest) = .ok (Nat.ofDigitChars 10 ds n, rest) := by
  induction ds generalizing n with
  | nil => simpa using exponentDigits_end stop n
  | cons c ds ih =>
    have digit : c.isDigit := digits c (by simp)
    rw [ofDigitChars_digit] at bound ⊢
    have fits := Nat.le_trans (le_ofDigitChars ds (10 * n + digitValue c)) bound
    have tail := ih (fun x member => digits x (by simp [member])) _ bound
    simp [exponentDigits, digit, fits, tail]

theorem toDigits_digits (n : Nat) : ∀ c ∈ Nat.toDigits 10 n, c.isDigit :=
  fun _ member => Nat.isDigit_of_mem_toDigits (by decide) (by decide) member

theorem toDigits_lead {n : Nat} (positive : 0 < n) :
    ∃ c cs, Nat.toDigits 10 n = c :: cs ∧ c ≠ '0' := by
  induction n using Nat.base_induction 10 (by decide) with
  | single m small =>
    refine ⟨m.digitChar, [], Nat.toDigits_of_lt_base small, ?_⟩
    revert positive
    revert m
    decide
  | digit m k digit pos ih =>
    obtain ⟨c, cs, front, lead⟩ := ih pos
    refine ⟨c, cs ++ Nat.toDigits 10 k, ?_, lead⟩
    rw [← Nat.toDigits_append_toDigits (by decide) pos digit, front]
    rfl

theorem toDigits_canonical {n : Nat} (zero : (Nat.toDigits 10 n).head? = some '0') :
    Nat.toDigits 10 n = ['0'] := by
  rcases Nat.eq_zero_or_pos n with rfl | positive
  · rfl
  · obtain ⟨c, cs, front, other⟩ := toDigits_lead positive
    rw [front] at zero
    exact absurd (Option.some.inj zero) other

end TickReplay.Json
