import TickReplay.Proofs.Decimal.Shortest
import TickReplay.Proofs.Json.DecimalText

/- What a reader makes of a written real. The shortest digits always arrive whole; the scaling that
   follows is done in binary64 arithmetic and need not lead back to the value they came from. -/
namespace TickReplay.Json

open Binary64 (infinityCode)

/-- The magnitude that the written digits of a finite one are scaled to, none if it overflows. A
    whole decimal is written with one more zero behind the point, which makes tenths of it. -/
def reread (code : Nat) : Option Nat :=
  let x := Decimal.shortest .toEven code
  if IsPlain x.order ∧ 0 ≤ x.exponent then scaled (x.coefficient * pow10 (x.exponent.toNat + 1)) (-1)
  else scaled x.coefficient x.exponent

def rereadNumber (negative : Bool) (code : Nat) (rest : List Char) :
    Except Fault (Number × List Char) :=
  match reread code with
  | some result => .ok (.real (Binary64.ofCode negative result), rest)
  | none => .error (.here .numberOutOfRange rest)

theorem rereadNumber_whole {negative : Bool} {code : Nat} {rest : List Char}
    (plain : IsPlain (Decimal.shortest .toEven code).order)
    (whole : 0 ≤ (Decimal.shortest .toEven code).exponent) :
    rereadNumber negative code rest =
      scaledNumber negative ((Decimal.shortest .toEven code).coefficient *
        pow10 ((Decimal.shortest .toEven code).exponent.toNat + 1)) (-1) rest := by
  have same : reread code = scaled ((Decimal.shortest .toEven code).coefficient *
      pow10 ((Decimal.shortest .toEven code).exponent.toNat + 1)) (-1) := by
    simp only [reread, plain, whole, and_self, ↓reduceIte]
  rw [rereadNumber, same]
  rfl

theorem rereadNumber_other {negative : Bool} {code : Nat} {rest : List Char}
    (other : ¬ (IsPlain (Decimal.shortest .toEven code).order ∧
      0 ≤ (Decimal.shortest .toEven code).exponent)) :
    rereadNumber negative code rest =
      scaledNumber negative (Decimal.shortest .toEven code).coefficient
        (Decimal.shortest .toEven code).exponent rest := by
  have same : reread code = scaled (Decimal.shortest .toEven code).coefficient
      (Decimal.shortest .toEven code).exponent := by
    simp only [reread, other, ↓reduceIte]
  rw [rereadNumber, same]
  rfl

theorem wordLimit_ge : pow10 19 ≤ wordLimit := by decide

theorem shortest_fits {code : Nat} (nonzero : code ≠ 0) :
    (Decimal.shortest .toEven code).coefficient ≤ wordLimit :=
  Nat.le_trans (Decimal.shortest_coefficient_le .toEven nonzero)
    (Nat.le_trans (by decide : pow10 17 ≤ pow10 19) wordLimit_ge)

theorem whole_fits {x : Decimal} {zeros : Nat} (whole : x.exponent = zeros) (plain : x.order < 16) :
    x.coefficient * pow10 (zeros + 1) ≤ wordLimit := by
  have length : x.digits.length + zeros ≤ 16 := by
    simp only [Decimal.order, whole] at plain
    omega
  have below : x.coefficient < pow10 x.digits.length :=
    (Nat.length_toDigits_le_iff (by decide) Nat.length_toDigits_pos).mp (Nat.le_refl _)
  calc
    x.coefficient * pow10 (zeros + 1) ≤ pow10 x.digits.length * pow10 (zeros + 1) :=
      Nat.mul_le_mul_right _ (Nat.le_of_lt below)
    _ = pow10 (x.digits.length + (zeros + 1)) := (Decimal.pow10_add _ _).symm
    _ ≤ pow10 19 := Nat.pow_le_pow_right (by decide) (by omega)
    _ ≤ wordLimit := wordLimit_ge

theorem shortest_zero : Decimal.shortest .toEven 0 = ⟨0, 0⟩ := by
  simp [Decimal.shortest]

theorem readUnsigned_magnitudeText (negative : Bool) {code : Nat} (finite : code < infinityCode)
    {rest : List Char} (stop : EndsNumeral rest) :
    readUnsigned negative (magnitudeText code ++ rest) = rereadNumber negative code rest := by
  by_cases zero : code = 0
  · subst code
    have plain : IsPlain (Decimal.shortest .toEven 0).order := by
      rw [shortest_zero]
      decide
    have text : magnitudeText 0 ++ rest = '0' :: '.' :: (['0'] ++ rest) := by
      simp only [magnitudeText, plain, ↓reduceIte]
      rw [shortest_zero]
      rfl
    rw [text, readUnsigned_zero_point negative ['0'] (by simp) (by simp) stop (by decide),
      rereadNumber_whole plain (by rw [shortest_zero]), shortest_zero]
    rfl
  have positive := Decimal.shortest_coefficient_pos .toEven zero
  have fits := shortest_fits zero
  have order := Decimal.shortest_order_bounds .toEven zero finite
  by_cases plain : IsPlain (Decimal.shortest .toEven code).order
  · simp only [magnitudeText, plain, ↓reduceIte]
    cases exponent : (Decimal.shortest .toEven code).exponent with
    | ofNat zeros =>
      rw [readUnsigned_whole negative exponent positive stop (whole_fits exponent plain.2),
        rereadNumber_whole plain (by rw [exponent]; exact Int.natCast_nonneg zeros), exponent]
      rfl
    | negSucc below =>
      rw [rereadNumber_other (fun both => by rw [exponent] at both; exact absurd both.2 (by omega))]
      by_cases inside : below + 1 < (Decimal.shortest .toEven code).digits.length
      · exact readUnsigned_inside negative exponent inside positive _ stop fits
      · exact readUnsigned_outside negative exponent inside _ stop fits
  · have near : (Decimal.shortest .toEven code).order.natAbs ≤ exponentLimit :=
      Nat.le_trans order (by decide)
    rw [rereadNumber_other (fun both => plain both.1)]
    simp only [magnitudeText, plain, ↓reduceIte]
    exact readUnsigned_scientific negative positive stop fits near

theorem positional_lead (x : Decimal) (whole : List Char) :
    ∃ c cs, x.positional whole = c :: cs ∧ c.isDigit := by
  have digits := toDigits_digits x.coefficient
  change ∀ d ∈ x.digits, _ at digits
  cases front : x.digits with
  | nil => exact absurd front Nat.toDigits_ne_nil
  | cons c cs =>
    rw [front] at digits
    have digit : c.isDigit := digits c (by simp)
    simp only [Decimal.positional, front]
    split
    · exact ⟨c, _, rfl, digit⟩
    · split
      · rename_i inside
        obtain ⟨k, cut⟩ : ∃ k, (c :: cs).length - (_ + 1) = k + 1 :=
          Nat.exists_eq_add_one.mpr (Nat.sub_pos_of_lt inside)
        rw [cut]
        exact ⟨c, _, rfl, digit⟩
      · exact ⟨'0', _, rfl, by decide⟩

theorem scientific_lead (x : Decimal) : ∃ c cs, x.scientific = c :: cs ∧ c.isDigit := by
  have digits := toDigits_digits x.coefficient
  change ∀ d ∈ x.digits, _ at digits
  cases front : x.digits with
  | nil => exact absurd front Nat.toDigits_ne_nil
  | cons c cs =>
    rw [front] at digits
    have digit : c.isDigit := digits c (by simp)
    cases cs with
    | nil => exact ⟨c, _, by simp [Decimal.scientific, front]; rfl, digit⟩
    | cons d ds => exact ⟨c, _, by simp [Decimal.scientific, front]; rfl, digit⟩

theorem magnitudeText_lead (code : Nat) : ∃ c cs, magnitudeText code = c :: cs ∧ c.isDigit := by
  simp only [magnitudeText]
  split
  · exact positional_lead _ _
  · exact scientific_lead _

theorem readNumeral_digit {c : Char} (digit : c.isDigit) (cs : List Char) :
    readNumeral (c :: cs) = readUnsigned false (c :: cs) := by
  have noMinus : c ≠ '-' := fun minus => by
    subst c
    exact absurd digit (by decide)
  rw [readNumeral]
  simp [noMinus]

theorem readNumeral_realText {x : Binary64} (finite : x.isFinite) {rest : List Char}
    (stop : EndsNumeral rest) :
    readNumeral (realText x ++ rest) = rereadNumber x.negative x.code rest := by
  have read := readUnsigned_magnitudeText x.negative (of_decide_eq_true finite) stop
  cases sign : x.negative with
  | true =>
    rw [sign] at read
    simp only [realText, finite, sign, ↓reduceIte, List.cons_append, List.nil_append, readNumeral]
    exact read
  | false =>
    obtain ⟨c, cs, front, digit⟩ := magnitudeText_lead x.code
    rw [sign, front, List.cons_append] at read
    simp only [realText, finite, sign, front, ↓reduceIte, Bool.false_eq_true, List.nil_append,
      List.cons_append]
    rw [readNumeral_digit digit, read]

theorem readNumeral_integerText {n : Int} (low : -(half64 : Int) ≤ n) (high : n < half64)
    {rest : List Char} (stop : EndsNumeral rest) :
    readNumeral (integerText n ++ rest) = .ok (.integer n, rest) := by
  have fits : n.natAbs ≤ wordLimit := by
    have word : half64 ≤ wordLimit := by decide
    omega
  have read := fun negative => (readUnsigned_toDigits negative n.natAbs stop.digits fits).trans
    (readAfterWhole_end negative n.natAbs stop)
  by_cases below : n < 0
  · have same : wholeNumber true n.natAbs = .integer n := by
      have small : 0 < n.natAbs ∧ n.natAbs ≤ half64 := by omega
      have value : -(n.natAbs : Int) = n := by omega
      rw [wholeNumber, if_neg (by decide), if_pos small, value]
    simp only [integerText, below, ↓reduceIte, List.cons_append, List.nil_append, readNumeral]
    rw [read, same]
  · have same : wholeNumber false n.natAbs = .integer n := by
      have value : (n.natAbs : Int) = n := by omega
      rw [wholeNumber, if_pos (by decide), value]
    have digits := toDigits_digits n.natAbs
    have plain := read false
    cases front : Nat.toDigits 10 n.natAbs with
    | nil => simp at front
    | cons c cs =>
      rw [front] at digits
      rw [front, List.cons_append] at plain
      simp only [integerText, below, front, ↓reduceIte, List.nil_append, List.cons_append]
      rw [readNumeral_digit (digits c (by simp)), plain, same]

end TickReplay.Json
