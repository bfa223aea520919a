import TickReplay.Proofs.Json.Denotation
import TickReplay.Proofs.Tick.Wire

/- The numerals of numbers are read, whatever stands behind them. An integer of more than 64 bits is
   scaled like a real then, but none of 128 bits overflows, and no finite real does. -/
namespace TickReplay

def word128 : Nat := word64 * word64

namespace Json

/-- A number that has a numeral: an integer within 128 bits or a finite real. -/
def Number.Proper : Number → Prop
  | .integer n => n.natAbs < word128
  | .real x => x.isFinite

theorem numeral_lead {c : Char} (numeral : startsNumeral c) :
    isSpace c = false ∧ c ≠ '\x7b' ∧ c ≠ '[' ∧ c ≠ '"' ∧ c ≠ 'n' ∧ c ≠ 't' ∧ c ≠ 'f' := by
  have other (d : Char) (noLead : startsNumeral d = false) : c ≠ d := by
    intro same
    rw [same, noLead] at numeral
    contradiction
  have shown : isSpace c = false := by
    rcases Bool.or_eq_true_iff.mp numeral with minus | digit
    · rw [eq_of_beq minus]
      decide
    · exact Tick.isSpace_digit digit
  exact ⟨shown, other _ (by decide), other _ (by decide), other _ (by decide), other _ (by decide),
    other _ (by decide), other _ (by decide)⟩

def wholeLiteral (negative : Bool) (n : Nat) : Literal :=
  ⟨negative, ⟨Nat.toDigits 10 n, Nat.toDigits_ne_nil, toDigits_digits n⟩, toDigits_canonical, none,
    none⟩

theorem wholeLiteral_text (n : Int) : (wholeLiteral (n < 0) n.natAbs).text = integerText n := by
  rw [Literal.text_of_integer rfl, integerText]
  by_cases below : n < 0 <;> simp [wholeLiteral, below]

theorem scaled_wide {significand places : Nat} (fits : significand ≤ wordLimit)
    (few : places ≤ 39) : ∃ code, scaled significand places = some code := by
  have most : Binary64.mul (Binary64.ofNat wordLimit) (power 39) < Binary64.infinityCode := by
    decide +kernel
  have finite := Nat.lt_of_le_of_lt
    (Binary64.mul_le (Binary64.ofNat_le fits) (power_le few)) most
  rw [scaled_power significand (by omega), if_neg (Nat.ne_of_lt finite)]
  exact ⟨_, rfl⟩

theorem wholeLiteral_number (negative : Bool) {n : Nat} (wide : n < word128) :
    ∃ value, (wholeLiteral negative n).number = some value := by
  obtain ⟨front, excess, taken, run⟩ := wholeDigits_taken (toDigits_digits n) (Nat.zero_le wordLimit)
  have whole : (wholeLiteral negative n).wholePart =
      (Nat.ofDigitChars 10 front 0, excess.length) := by
    simp only [Literal.wholePart, wholeLiteral, run]
  have length : (Nat.toDigits 10 n).length ≤ 39 :=
    (Nat.length_toDigits_le_iff (by decide) (by decide)).mpr (Nat.lt_trans wide (by decide))
  have few : excess.length ≤ 39 := by
    rw [taken.split, List.length_append] at length
    omega
  obtain ⟨code, scale⟩ := scaled_wide taken.fits few
  have digits : (wholeLiteral negative n).digitsPart =
      (Nat.ofDigitChars 10 front 0, (excess.length : Int)) := by
    rw [Literal.digitsPart, whole]
    simp [wholeLiteral, fractionChars, fractionDigits]
  have magnitude : (wholeLiteral negative n).magnitude = some code := by
    rw [Literal.magnitude, digits]
    exact scale
  unfold Literal.number
  split
  · exact ⟨_, rfl⟩
  · exact ⟨_, by rw [magnitude, Option.map_some]⟩

theorem readNumeral_integer {n : Int} (wide : n.natAbs < word128) {rest : List Char}
    (stop : EndsNumeral rest) : ∃ value, readNumeral (integerText n ++ rest) = .ok (value, rest) := by
  obtain ⟨value, denoted⟩ := wholeLiteral_number (n < 0) wide
  have yields := yields_numeral (wholeLiteral (n < 0) n.natAbs) (Literal.ends _ stop)
  rw [denoted, wholeLiteral_text] at yields
  exact ⟨value, yields⟩

theorem reread_finite {code : Nat} (finite : code < Binary64.infinityCode) :
    ∃ result, reread code = some result := by
  rcases Nat.eq_zero_or_pos code with rfl | positive
  · exact ⟨0, by decide +kernel⟩
  · obtain ⟨result, back, _⟩ := reread_kept (Nat.ne_of_gt positive) finite
    exact ⟨result, back⟩

theorem readNumeral_text {n : Number} (proper : n.Proper) {rest : List Char}
    (stop : EndsNumeral rest) : ∃ value, readNumeral (n.text ++ rest) = .ok (value, rest) := by
  cases n with
  | integer n => exact readNumeral_integer proper stop
  | real x =>
    obtain ⟨result, back⟩ := reread_finite (of_decide_eq_true proper)
    rw [Number.text, readNumeral_realText proper stop, rereadNumber, back]
    exact ⟨_, rfl⟩

theorem text_lead {n : Number} (proper : n.Proper) :
    ∃ c cs, n.text = c :: cs ∧ startsNumeral c := by
  cases n with
  | integer n => exact Tick.integerText_lead n
  | real x => exact Tick.realText_lead proper

end Json
end TickReplay
