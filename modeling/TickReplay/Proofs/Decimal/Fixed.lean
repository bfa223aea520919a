import TickReplay.Decimal.Basic
import TickReplay.Proofs.Binary64.Nearest
import TickReplay.Proofs.Decimal.Numeral

/- Texts with a fixed number of places. Their digits are the integer nearest to the magnitude in units of
   the last place, so the number that a text shows is at most half a unit off, and a greater number is
   not shown as a smaller one. -/
namespace TickReplay.Decimal

open Binary64 (units unitsPerOne)

/-- A number written out in full with some places: the sign that it has, zero included, the digits in
    front of the point without needless zeros, and so many digits behind it. All digits together are the
    integer nearest to the magnitude in units of the last place, an even one of two. -/
inductive FixedText (places : Nat) (x : Binary64) : List Char → Prop where
  | written {whole fraction : List Char} (digits : ∀ c ∈ whole ++ fraction, c.isDigit)
      (some_whole : whole ≠ []) (no_zeros : whole.head? = some '0' → whole = ['0'])
      (length : fraction.length = places)
      (nearest : NearestInt (|x.toRat| * 10 ^ places) (Nat.ofDigitChars 10 (whole ++ fraction) 0)) :
      FixedText places x ((if x.negative then ['-'] else []) ++ (whole ++ '.' :: fraction))

def shown (text : List Char) : ℚ :=
  let (negative, body) := splitSign text
  let fraction := (body.dropWhile (· != '.')).drop 1
  (if negative then -1 else 1) *
    (Nat.ofDigitChars 10 (body.takeWhile (· != '.') ++ fraction) 0 / 10 ^ fraction.length)

theorem natOfDigits_append (cs ds : List Char) :
    natOfDigits (cs ++ ds) = pow10 ds.length * natOfDigits cs + natOfDigits ds := by
  change Nat.ofDigitChars 10 (cs ++ ds) 0 = _
  rw [Nat.ofDigitChars_append, Nat.ofDigitChars_eq_ofDigitChars_zero]
  rfl

theorem natOfDigits_toDigits (n : Nat) : natOfDigits (Nat.toDigits 10 n) = n :=
  Nat.ofDigitChars_ten_toDigits

theorem natOfDigits_padded (width : Nat) (ds : List Char) :
    natOfDigits (padded width ds) = natOfDigits ds := by
  change Nat.ofDigitChars 10 (List.replicate (width - ds.length) '0' ++ ds) 0 = _
  rw [Nat.ofDigitChars_append, Nat.ofDigitChars_replicate_zero, Nat.mul_zero]
  rfl

theorem padded_length {width : Nat} {ds : List Char} (fits : ds.length ≤ width) :
    (padded width ds).length = width := by
  rw [padded, List.length_append, List.length_replicate]
  omega

theorem padded_digits (width : Nat) {ds : List Char} (digits : ∀ c ∈ ds, c.isDigit) :
    ∀ c ∈ padded width ds, c.isDigit :=
  Json.append_digits (Json.zeros_digits (width - ds.length)) digits

theorem rest_length {places : Nat} (positive : 0 < places) (n : Nat) :
    (Nat.toDigits 10 (n % pow10 places)).length ≤ places :=
  (Nat.length_toDigits_le_iff (by decide) positive).mpr (Nat.mod_lt n (pow10_pos places))

theorem natOfDigits_places {places : Nat} (positive : 0 < places) (n : Nat) :
    natOfDigits (Nat.toDigits 10 (n / pow10 places) ++
      padded places (Nat.toDigits 10 (n % pow10 places))) = n := by
  rw [natOfDigits_append, padded_length (rest_length positive n), natOfDigits_padded,
    natOfDigits_toDigits, natOfDigits_toDigits, Nat.div_add_mod]

theorem nearest_rounded (places : Nat) (x : Binary64) :
    NearestInt (|x.toRat| * 10 ^ places) (rounded places x.code) := by
  have nearest := Binary64.nearest_roundDiv (units x.code * pow10 places) unitsPerOne_pos
  have same : ((units x.code * pow10 places : Nat) : ℚ) / unitsPerOne = |x.toRat| * 10 ^ places := by
    rw [Binary64.abs_toRat, Nat.cast_mul, mul_div_right_comm]
    congr 1
    exact Nat.cast_pow 10 places
  rwa [same] at nearest

theorem fixed_text {places : Nat} (positive : 0 < places) {x : Binary64} (finite : x.isFinite) :
    FixedText places x (fixed places x) := by
  have number : x.isNaN = false := by
    have inside : x.code < Binary64.infinityCode := of_decide_eq_true finite
    exact decide_eq_false (by omega)
  have value := natOfDigits_places positive (rounded places x.code)
  rw [fixed, number, if_neg (by decide), if_pos finite, withPlaces]
  refine .written ?_ ?_ ?_ ?_ ?_
  · exact Json.append_digits (Json.toDigits_digits _) (padded_digits places (Json.toDigits_digits _))
  · exact List.ne_nil_of_length_pos Nat.length_toDigits_pos
  · exact Json.toDigits_canonical
  · exact padded_length (rest_length positive _)
  · rw [← natOfDigits_eq, value]
    exact nearest_rounded places x

theorem whole_ends {whole : List Char} (digits : ∀ c ∈ whole, c.isDigit) (fraction : List Char) :
    (whole ++ '.' :: fraction).takeWhile (· != '.') = whole ∧
      (whole ++ '.' :: fraction).dropWhile (· != '.') = '.' :: fraction := by
  have other : ∀ c ∈ whole, (c != '.') = true := by
    intro c member
    have digit := digits c member
    rw [bne_iff_ne]
    rintro rfl
    cases digit
  constructor
  · rw [List.takeWhile_append_of_pos other]
    simp
  · rw [List.dropWhile_append_of_pos other]
    simp

theorem shown_written (negative : Bool) {whole fraction : List Char}
    (digits : ∀ c ∈ whole, c.isDigit) (some_whole : whole ≠ []) :
    shown ((if negative then ['-'] else []) ++ (whole ++ '.' :: fraction)) =
      (if negative then -1 else 1) *
        (Nat.ofDigitChars 10 (whole ++ fraction) 0 / 10 ^ fraction.length) := by
  have split : splitSign ((if negative then ['-'] else []) ++ (whole ++ '.' :: fraction)) =
      (negative, whole ++ '.' :: fraction) := by
    obtain ⟨c, cs, rfl⟩ := List.exists_cons_of_ne_nil some_whole
    have sign := Json.splitSign_text (if negative then .minus else .absent)
      (digits c (by simp)) (cs ++ '.' :: fraction)
    cases negative <;> exact sign
  obtain ⟨front, back⟩ := whole_ends digits fraction
  simp only [shown, split, front, back, List.drop_succ_cons, List.drop_zero]

theorem FixedText.nearest_shown {places : Nat} {x : Binary64} {text : List Char}
    (fixed : FixedText places x text) :
    ∃ n : ℤ, shown text = n / 10 ^ places ∧ NearestInt (x.toRat * 10 ^ places) n := by
  cases fixed with
  | @written whole fraction digits some_whole no_zeros length nearest =>
    have whole_digits : ∀ c ∈ whole, c.isDigit := fun c member =>
      digits c (List.mem_append_left fraction member)
    have value : shown ((if x.negative then ['-'] else []) ++ (whole ++ '.' :: fraction)) = _ :=
      shown_written x.negative whole_digits some_whole
    rw [length] at value
    rw [x.toRat_eq_abs]
    cases sign : x.negative with
    | false =>
      refine ⟨Nat.ofDigitChars 10 (whole ++ fraction) 0, ?_, nearest⟩
      simpa [sign] using value
    | true =>
      refine ⟨-Nat.ofDigitChars 10 (whole ++ fraction) 0, ?_, ?_⟩
      · simpa [sign, neg_div] using value
      · rw [if_pos rfl, neg_mul]
        exact nearest.neg

theorem shown_near {places : Nat} {x : Binary64} {text : List Char}
    (fixed : FixedText places x text) : |shown text - x.toRat| ≤ 1 / 2 / 10 ^ places := by
  obtain ⟨n, value, nearest⟩ := fixed.nearest_shown
  have scale : (0 : ℚ) < 10 ^ places := by positivity
  have difference : shown text - x.toRat = -(x.toRat * 10 ^ places - n) / 10 ^ places := by
    rw [value]
    field_simp
    ring
  rw [difference, abs_div, abs_neg, abs_of_pos scale]
  exact div_le_div_of_nonneg_right nearest.half (le_of_lt scale)

theorem shown_le {places : Nat} {x y : Binary64} {first second : List Char}
    (less : FixedText places x first) (greater : FixedText places y second)
    (le : x.toRat ≤ y.toRat) : shown first ≤ shown second := by
  obtain ⟨m, value, nearest⟩ := less.nearest_shown
  obtain ⟨n, value', nearest'⟩ := greater.nearest_shown
  have scale : (0 : ℚ) ≤ 10 ^ places := by positivity
  have ordered : m ≤ n := nearest.mono (mul_le_mul_of_nonneg_right le scale) nearest'
  rw [value, value']
  exact div_le_div_of_nonneg_right (by exact_mod_cast ordered) scale

end TickReplay.Decimal
