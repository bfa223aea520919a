import TickReplay.Proofs.Decimal.RoundTrip
import TickReplay.Proofs.Json.Literal

/- Typed decimals as a grammar, and the value that a reader gives them: the magnitude nearest to the
   written number. The reader's guards against large exponents answer as the exact arithmetic would. -/
namespace TickReplay.Decimal

open Binary64 (unitsPerOne infinityCode ofDecimal)
open Json (Sign Exponent exponentPart EndsDigits endsDigits_nil endsDigits_cons)

/-- An optional sign, digits before and behind an optional point, not missing on both sides, and an
    optional exponent. From 2^16 on a reader may stop counting, so exponents stay below. -/
structure Numeral where
  sign : Sign
  whole : List Char
  fraction : Option (List Char)
  exponent : Option Exponent
  digits : ∀ c ∈ whole ++ fraction.getD [], c.isDigit
  nonempty : whole ++ fraction.getD [] ≠ []
  small : ∀ e ∈ exponent, Nat.ofDigitChars 10 e.digits.chars 0 < word16

def pointText : Option (List Char) → List Char
  | none => []
  | some ds => '.' :: ds

namespace Numeral

variable (n : Numeral)

def body : List Char := n.whole ++ (pointText n.fraction ++ exponentPart n.exponent)

def text : List Char := n.sign.text ++ n.body

def negative : Bool := decide (n.sign = .minus)

def shift : Int :=
  match n.exponent with
  | none => 0
  | some e =>
    if e.sign = .minus then -(Nat.ofDigitChars 10 e.digits.chars 0 : Int)
    else Nat.ofDigitChars 10 e.digits.chars 0

def decimal : Decimal where
  coefficient := Nat.ofDigitChars 10 (n.whole ++ n.fraction.getD []) 0
  exponent := n.shift - (n.fraction.getD []).length

def value : Binary64 :=
  .ofCode n.negative (ofDecimal n.decimal.coefficient n.decimal.exponent)

end Numeral

theorem natOfDigits_eq (ds : List Char) : natOfDigits ds = Nat.ofDigitChars 10 ds 0 := rfl

theorem natOfDigits_cons (c : Char) (ds : List Char) :
    natOfDigits (c :: ds) = pow10 ds.length * digitValue c + natOfDigits ds := by
  have step : natOfDigits (c :: ds) = 10 ^ ds.length * (10 * 0 + digitValue c) + natOfDigits ds :=
    @Nat.ofDigitChars_eq_ofDigitChars_zero ds (10 * 0 + digitValue c)
  refine step.trans ?_
  rw [Nat.mul_zero, Nat.zero_add]
  rfl

theorem natOfDigits_lt {ds : List Char} (digits : ∀ c ∈ ds, c.isDigit) :
    natOfDigits ds < pow10 ds.length := by
  induction ds with
  | nil => decide
  | cons c ds ih =>
    have tail := ih fun d member => digits d (List.mem_cons_of_mem c member)
    have first := Json.digitValue_le (digits c (by simp))
    have most : pow10 ds.length * digitValue c ≤ pow10 ds.length * 9 := Nat.mul_le_mul_left _ first
    rw [natOfDigits_cons, List.length_cons, pow10_succ]
    omega

theorem le_natOfDigits {c : Char} (digit : c.isDigit) (other : c ≠ '0') (ds : List Char) :
    pow10 ds.length ≤ natOfDigits (c :: ds) := by
  have some_ : 0 < digitValue c :=
    Nat.pos_of_ne_zero fun zero => other (Json.digitValue_zero digit zero)
  rw [natOfDigits_cons]
  exact Nat.le_trans (Nat.le_mul_of_pos_right _ some_) (Nat.le_add_right _ _)

theorem natOfDigits_dropZeros (ds : List Char) :
    natOfDigits (ds.dropWhile (· == '0')) = natOfDigits ds := by
  induction ds with
  | nil => rfl
  | cons c ds ih =>
    by_cases zero : c = '0'
    · subst zero
      rw [List.dropWhile_cons, if_pos (by rfl), ih]
      rfl
    · rw [List.dropWhile_cons, if_neg (by simpa using zero)]

theorem ofDecimal_huge {coefficient m : Nat} {exponent : Int} (least : pow10 m ≤ coefficient)
    (large : 400 ≤ m + exponent) : ofDecimal coefficient exponent = infinityCode := by
  have bound : Binary64.nearest (pow10 400 * unitsPerOne) 1 = infinityCode := by decide +kernel
  refine Nat.le_antisymm (Nat.min_le_left _ _) ?_
  rw [← bound]
  refine Binary64.nearest_le Nat.one_pos (pow10_pos _) ?_
  calc
    pow10 400 * unitsPerOne * pow10 (-exponent).toNat
        = pow10 (400 + (-exponent).toNat) * unitsPerOne := by rw [pow10_add]; ring
    _ ≤ pow10 (m + exponent.toNat) * unitsPerOne :=
      Nat.mul_le_mul_right _ (Nat.pow_le_pow_right (by decide) (by omega))
    _ = pow10 m * pow10 exponent.toNat * unitsPerOne := by rw [pow10_add]
    _ ≤ coefficient * pow10 exponent.toNat * unitsPerOne :=
      Nat.mul_le_mul_right _ (Nat.mul_le_mul_right _ least)
    _ = coefficient * pow10 exponent.toNat * unitsPerOne * 1 := (Nat.mul_one _).symm

theorem ofDecimal_tiny {coefficient m : Nat} {exponent : Int} (most : coefficient ≤ pow10 m)
    (small : m + exponent ≤ -400) : ofDecimal coefficient exponent = 0 := by
  have bound : Binary64.nearest unitsPerOne (pow10 400) = 0 := by decide +kernel
  refine Nat.le_zero.mp ?_
  rw [← bound]
  refine Binary64.nearest_le (pow10_pos _) (pow10_pos _) ?_
  calc
    coefficient * pow10 exponent.toNat * unitsPerOne * pow10 400
        ≤ pow10 m * pow10 exponent.toNat * unitsPerOne * pow10 400 :=
      Nat.mul_le_mul_right _ (Nat.mul_le_mul_right _ (Nat.mul_le_mul_right _ most))
    _ = unitsPerOne * pow10 (m + exponent.toNat + 400) := by rw [pow10_add, pow10_add]; ring
    _ ≤ unitsPerOne * pow10 (-exponent).toNat :=
      Nat.mul_le_mul_left _ (Nat.pow_le_pow_right (by decide) (by omega))

/-- The guards of the reader change no result. -/
theorem readMagnitude_eq {ds : List Char} (digits : ∀ c ∈ ds, c.isDigit) (exponent : Int) :
    readMagnitude ds exponent = ofDecimal (natOfDigits ds) exponent := by
  unfold readMagnitude
  dsimp only
  split
  · rename_i zero
    rw [zero, ofDecimal_zero]
  rename_i nonzero
  have dropped := natOfDigits_dropZeros ds
  have inside : ∀ c ∈ ds.dropWhile (· == '0'), c.isDigit :=
    fun c member => digits c ((List.dropWhile_sublist _).subset member)
  have lead : ∀ c ∈ (ds.dropWhile (· == '0')).head?, c ≠ '0' := by
    intro c head
    have stop := List.head?_dropWhile_not (· == '0') ds
    rw [Option.mem_def.mp head] at stop
    simpa using stop
  generalize ds.dropWhile (· == '0') = significant at dropped inside lead ⊢
  rw [← dropped] at nonzero ⊢
  cases significant with
  | nil => exact absurd rfl nonzero
  | cons c cs =>
    split
    · rename_i large
      rw [List.length_cons] at large
      exact (ofDecimal_huge (le_natOfDigits (inside c (by simp)) (lead c rfl) cs) (by omega)).symm
    split
    · rename_i small
      exact (ofDecimal_tiny (Nat.le_of_lt (natOfDigits_lt inside)) (by omega)).symm
    · rfl

theorem foldl_exponent {ds : List Char} {n : Nat} (small : Nat.ofDigitChars 10 ds n < word16) :
    ds.foldl (fun n c => if n < word16 then 10 * n + digitValue c else n) n =
      Nat.ofDigitChars 10 ds n := by
  induction ds generalizing n with
  | nil => rfl
  | cons c ds ih =>
    rw [Json.ofDigitChars_digit] at small ⊢
    have grows := Json.le_ofDigitChars ds (10 * n + digitValue c)
    rw [List.foldl_cons, if_pos (by omega)]
    exact ih small

theorem exponentOfDigits_eq {ds : List Char} (small : natOfDigits ds < word16) :
    exponentOfDigits ds = natOfDigits ds :=
  foldl_exponent small

theorem takeWhile_digits {ds rest : List Char} (digits : ∀ c ∈ ds, c.isDigit)
    (stop : EndsDigits rest) : (ds ++ rest).takeWhile Char.isDigit = ds := by
  have none_ : rest.takeWhile Char.isDigit = [] := by
    cases rest with
    | nil => rfl
    | cons c rest =>
      have other : c.isDigit = false := stop c rfl
      simp [other]
  rw [List.takeWhile_append_of_pos digits, none_, List.append_nil]

namespace Numeral

variable (n : Numeral)

theorem endsDigits_exponent (e : Option Exponent) : EndsDigits (exponentPart e) := by
  cases e with
  | none => exact endsDigits_nil
  | some e =>
    refine endsDigits_cons _ ?_
    rcases Bool.or_eq_true_iff.mp e.is_mark with same | same
    · rw [eq_of_beq same]
      rfl
    · rw [eq_of_beq same]
      rfl

theorem splitSign_digits (sign : Sign) {ds : List Char} (digits : ∀ c ∈ ds, c.isDigit)
    (nonempty : ds ≠ []) : splitSign (sign.text ++ ds) = (decide (sign = .minus), ds) := by
  obtain ⟨c, cs, rfl⟩ := List.exists_cons_of_ne_nil nonempty
  exact Json.splitSign_text sign (digits c (by simp)) cs

theorem readExponent_part : readExponent (exponentPart n.exponent) = some n.shift := by
  unfold shift
  cases given : n.exponent with
  | none => rfl
  | some e =>
    have small := n.small e given
    have sign := splitSign_digits e.sign e.digits.digits e.digits.nonempty
    have mark : (e.mark == 'e' || e.mark == 'E') = true := e.is_mark
    have wellFormed : (e.digits.chars.isEmpty || !e.digits.chars.all Char.isDigit) = false := by
      rw [Bool.or_eq_false_iff, Bool.not_eq_false', List.all_eq_true, List.isEmpty_eq_false_iff]
      exact ⟨e.digits.nonempty, e.digits.digits⟩
    simp only [exponentPart, readExponent, Exponent.tail, mark, if_true, sign, wellFormed,
      Bool.false_eq_true, if_false, exponentOfDigits_eq small, natOfDigits_eq]
    simp

theorem exponent_point (e : Option Exponent) (rest : List Char) : exponentPart e ≠ '.' :: rest := by
  cases e with
  | none => nofun
  | some e =>
    intro same
    have mark := e.is_mark
    rw [(List.cons.inj same).1] at mark
    cases mark

theorem readNumber_body : readNumber n.body =
    some (ofDecimal n.decimal.coefficient n.decimal.exponent) := by
  have whole : ∀ c ∈ n.whole, c.isDigit :=
    fun c member => n.digits c (List.mem_append_left _ member)
  have tail := endsDigits_exponent n.exponent
  have value := readMagnitude_eq n.digits (n.shift - (n.fraction.getD []).length)
  rw [natOfDigits_eq] at value
  have nonempty := n.nonempty
  unfold decimal body
  dsimp only
  rw [← value]
  cases given : n.fraction with
  | none =>
    rw [given, Option.getD_none, List.append_nil] at nonempty
    simp only [pointText, List.nil_append, readNumber, takeWhile_digits whole tail,
      Json.dropWhile_digits whole tail]
    split
    · rename_i point
      exact absurd point (exponent_point _ _)
    · rw [readExponent_part]
      simp [nonempty]
  | some ds =>
    have fraction : ∀ c ∈ ds, c.isDigit :=
      fun c member => n.digits c (List.mem_append_right _ (by simpa [given] using member))
    have point : EndsDigits ('.' :: (ds ++ exponentPart n.exponent)) := endsDigits_cons _ rfl
    have some_ : ¬ (n.whole.isEmpty && ds.isEmpty) = true := by
      rw [given, Option.getD_some, ne_eq, List.append_eq_nil_iff] at nonempty
      rw [Bool.and_eq_true, List.isEmpty_iff, List.isEmpty_iff]
      exact nonempty
    simp only [pointText, List.cons_append, readNumber, takeWhile_digits whole point,
      Json.dropWhile_digits whole point, takeWhile_digits fraction tail,
      Json.dropWhile_digits fraction tail, readExponent_part]
    rw [if_neg some_]
    rfl

theorem body_lead : ∃ c cs, n.body = c :: cs ∧ (c.isDigit ∨ c = '.') := by
  have nonempty := n.nonempty
  have digits := n.digits
  unfold body
  cases whole : n.whole with
  | cons c cs =>
    rw [whole] at digits
    exact ⟨c, _, rfl, .inl (digits c (by simp))⟩
  | nil =>
    rw [whole] at nonempty
    cases given : n.fraction with
    | none => exact absurd (by simp [given]) nonempty
    | some ds => exact ⟨'.', _, rfl, .inr rfl⟩

theorem splitSign_body : splitSign n.text = (n.negative, n.body) := by
  obtain ⟨c, cs, front, lead⟩ := n.body_lead
  rw [text, front]
  rcases lead with digit | rfl
  · exact Json.splitSign_text n.sign digit cs
  · unfold negative
    cases n.sign <;> rfl

theorem toLower_digit {c : Char} (digit : c.isDigit) : c.toLower = c := by
  unfold Char.toLower
  split
  · rename_i upper
    have most : c.val.toNat ≤ 57 := (Json.isDigit_bounds digit).2
    have least : 65 ≤ c.val.toNat := UInt32.le_iff_toNat_le.mp upper.1
    omega
  · rfl

theorem body_named (name : String) (letter : ∃ d ds, name.toList = d :: ds ∧ 97 ≤ d.toNat) :
    String.ofList (n.body.map Char.toLower) ≠ name := by
  obtain ⟨c, cs, front, lead⟩ := n.body_lead
  obtain ⟨d, ds, spelled, least⟩ := letter
  intro same
  rw [← same, String.toList_ofList, front, List.map_cons] at spelled
  rw [← (List.cons.inj spelled).1] at least
  rcases lead with digit | rfl
  · rw [toLower_digit digit] at least
    have most := (Json.isDigit_bounds digit).2
    omega
  · exact absurd least (by decide)

theorem readUnsigned_body : readUnsigned n.body =
    some fun negative => .ofCode negative (ofDecimal n.decimal.coefficient n.decimal.exponent) := by
  have inf := n.body_named "inf" ⟨_, _, rfl, by decide⟩
  have infinity := n.body_named "infinity" ⟨_, _, rfl, by decide⟩
  have nan := n.body_named "nan" ⟨_, _, rfl, by decide⟩
  rw [readUnsigned, readNumber_body]
  simp [inf, infinity, nan]

theorem text_ne_nil : n.text ≠ [] := by
  obtain ⟨c, cs, front, _⟩ := n.body_lead
  simp [text, front]

theorem readLiteral_text : readLiteral n.text = .ok n.value := by
  have some_ : n.text.isEmpty = false := List.isEmpty_eq_false_iff.mpr n.text_ne_nil
  simp only [readLiteral, some_, Bool.false_eq_true, if_false, splitSign_body, readUnsigned_body]
  rfl

end Numeral

end TickReplay.Decimal
