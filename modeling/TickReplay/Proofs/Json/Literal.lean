import TickReplay.Proofs.Json.RealText

/- Numerals as a grammar: an optional minus, whole digits without a needless zero in front, and
   optionally a point with digits and a signed exponent. The reader takes the longest numeral that a
   text begins with, and gives it the value that its digits are scaled to. -/
namespace TickReplay.Json

open Decimal (digitValue)

structure Digits where
  chars : List Char
  nonempty : chars ≠ []
  digits : ∀ c ∈ chars, c.isDigit

inductive Sign where
  | absent
  | plus
  | minus
  deriving DecidableEq

def Sign.text : Sign → List Char
  | .absent => []
  | .plus => ['+']
  | .minus => ['-']

structure Exponent where
  mark : Char
  is_mark : isExponentMark mark
  sign : Sign
  digits : Digits

def Exponent.tail (e : Exponent) : List Char := e.sign.text ++ e.digits.chars

/-- What a significand is scaled to by a written exponent. Beyond 32 bits only zero and what
    vanishes anyway are left. -/
def Exponent.scale (e : Exponent) (significand : Nat) (exponent : Int) : Option Nat :=
  match exponentDigits 0 e.digits.chars with
  | .ok (shift, _) =>
    scaled significand (if e.sign = .minus then exponent - shift else exponent + shift)
  | .error _ => if significand ≠ 0 ∧ e.sign ≠ .minus then none else some 0

def fractionText : Option Digits → List Char
  | none => []
  | some ds => '.' :: ds.chars

def fractionChars : Option Digits → List Char
  | none => []
  | some ds => ds.chars

def exponentPart : Option Exponent → List Char
  | none => []
  | some e => e.mark :: e.tail

def scaleBy (significand : Nat) (exponent : Int) : Option Exponent → Option Nat
  | none => scaled significand exponent
  | some e => e.scale significand exponent

def signedReal (negative : Bool) (code : Nat) : Number := .real (Binary64.ofCode negative code)

structure Literal where
  negative : Bool
  whole : Digits
  canonical : whole.chars.head? = some '0' → whole.chars = ['0']
  fraction : Option Digits
  exponent : Option Exponent

namespace Literal

def unsignedText (l : Literal) : List Char :=
  l.whole.chars ++ (fractionText l.fraction ++ exponentPart l.exponent)

def text (l : Literal) : List Char := if l.negative then '-' :: l.unsignedText else l.unsignedText

def isInteger (l : Literal) : Bool := l.fraction.isNone && l.exponent.isNone

def wholePart (l : Literal) : Nat × Nat :=
  let (significand, excess, _) := wholeDigits 0 0 l.whole.chars
  (significand, excess)

/-- The digits as a significand of one word and the exponent that they leave to it. -/
def digitsPart (l : Literal) : Nat × Int :=
  let (significand, places, _) := fractionDigits l.wholePart.1 0 (fractionChars l.fraction)
  (significand, l.wholePart.2 - places)

def magnitude (l : Literal) : Option Nat := scaleBy l.digitsPart.1 l.digitsPart.2 l.exponent

/-- The number that a literal denotes: whole ones that fit the word stay whole. -/
def number (l : Literal) : Option Number :=
  if l.isInteger ∧ l.wholePart.2 = 0 then
    some (wholeNumber l.negative l.wholePart.1)
  else l.magnitude.map (signedReal l.negative)

structure Ends (l : Literal) (rest : List Char) : Prop where
  digits : EndsDigits rest
  point : l.fraction = none → l.exponent = none → ∀ c ∈ rest.head?, c ≠ '.'
  mark : l.exponent = none → ∀ c ∈ rest.head?, isExponentMark c = false

end Literal

theorem endsDigits_nil : EndsDigits [] := by simp [EndsDigits]

theorem dropWhile_digits {ds rest : List Char} (digits : ∀ c ∈ ds, c.isDigit)
    (stop : EndsDigits rest) : (ds ++ rest).dropWhile Char.isDigit = rest := by
  induction ds with
  | nil =>
    cases rest with
    | nil => rfl
    | cons c rest =>
      have other : c.isDigit = false := stop c rfl
      simp [other]
  | cons c ds ih =>
    have digit : c.isDigit := digits c (by simp)
    rw [List.cons_append, List.dropWhile_cons, if_pos digit]
    exact ih fun x member => digits x (by simp [member])

theorem wholeDigits_append {ds rest : List Char} (digits : ∀ c ∈ ds, c.isDigit)
    (stop : EndsDigits rest) (n excess : Nat) : wholeDigits n excess (ds ++ rest) =
      ((wholeDigits n excess ds).1, (wholeDigits n excess ds).2.1, rest) := by
  induction ds generalizing n excess with
  | nil => exact wholeDigits_end stop n excess
  | cons c ds ih =>
    have digit : c.isDigit := digits c (by simp)
    have tail := ih fun x member => digits x (by simp [member])
    simp only [List.cons_append, wholeDigits, digit, Bool.not_true, Bool.false_eq_true, if_false]
    split
    · exact tail _ _
    · exact tail _ _

theorem fractionDigits_append {ds rest : List Char} (digits : ∀ c ∈ ds, c.isDigit)
    (stop : EndsDigits rest) (n places : Nat) : fractionDigits n places (ds ++ rest) =
      ((fractionDigits n places ds).1, (fractionDigits n places ds).2.1, rest) := by
  induction ds generalizing n places with
  | nil => exact fractionDigits_end stop n places
  | cons c ds ih =>
    have digit : c.isDigit := digits c (by simp)
    have others : ∀ x ∈ ds, x.isDigit := fun x member => digits x (by simp [member])
    simp only [List.cons_append, fractionDigits, digit, Bool.not_true, Bool.false_eq_true, if_false]
    split
    · exact ih others _ _
    · rw [dropWhile_digits others stop]

theorem exponentDigits_append {ds rest : List Char} (digits : ∀ c ∈ ds, c.isDigit)
    (stop : EndsDigits rest) (n : Nat) :
    match exponentDigits n ds with
    | .ok (shift, _) => exponentDigits n (ds ++ rest) = .ok (shift, rest)
    | .error more => exponentDigits n (ds ++ rest) = .error (more ++ rest) ∧ ∀ c ∈ more, c.isDigit := by
  induction ds generalizing n with
  | nil => exact exponentDigits_end stop n
  | cons c ds ih =>
    have digit : c.isDigit := digits c (by simp)
    have others : ∀ x ∈ ds, x.isDigit := fun x member => digits x (by simp [member])
    simp only [List.cons_append, exponentDigits, digit, Bool.not_true, Bool.false_eq_true, if_false]
    by_cases fits : 10 * n + digitValue c ≤ exponentLimit
    · simp only [fits, if_true]
      exact ih others _
    · simp only [fits, if_false, true_and]
      exact others

theorem split_run (cs : List Char) :
    ∃ ds rest, cs = ds ++ rest ∧ (∀ c ∈ ds, c.isDigit) ∧ EndsDigits rest := by
  induction cs with
  | nil => exact ⟨[], [], by simp [EndsDigits]⟩
  | cons c cs ih =>
    cases digit : c.isDigit with
    | true =>
      obtain ⟨ds, rest, rfl, digits, stop⟩ := ih
      exact ⟨c :: ds, rest, rfl, List.forall_mem_cons.mpr ⟨digit, digits⟩, stop⟩
    | false => exact ⟨[], c :: cs, by simp, by simp, endsDigits_cons cs digit⟩

theorem split_digits {c : Char} (digit : c.isDigit) (cs : List Char) :
    ∃ (ds : List Char) (rest : List Char),
      c :: cs = c :: ds ++ rest ∧ (∀ x ∈ c :: ds, x.isDigit) ∧ EndsDigits rest := by
  obtain ⟨ds, rest, rfl, digits, stop⟩ := split_run cs
  exact ⟨ds, rest, rfl, List.forall_mem_cons.mpr ⟨digit, digits⟩, stop⟩

def Yields (value : Option Number) (rest : List Char) (read : Except Fault (Number × List Char)) :
    Prop :=
  match value with
  | some denoted => read = .ok (denoted, rest)
  | none => ∃ fault, read = .error fault

theorem yields_scaled (negative : Bool) (significand : Nat) (exponent : Int) (rest : List Char) :
    Yields ((scaled significand exponent).map (signedReal negative)) rest
      (scaledNumber negative significand exponent rest) := by
  unfold scaledNumber
  cases scaled significand exponent with
  | none => exact ⟨_, rfl⟩
  | some code => rfl

theorem splitSign_text (sign : Sign) {c : Char} (digit : c.isDigit) (cs : List Char) :
    Decimal.splitSign (sign.text ++ c :: cs) = (decide (sign = .minus), c :: cs) := by
  have noMinus : c ≠ '-' := by
    rintro rfl
    contradiction
  have noPlus : c ≠ '+' := by
    rintro rfl
    contradiction
  cases sign with
  | absent => simp [Sign.text, Decimal.splitSign, noMinus, noPlus]
  | plus => rfl
  | minus => rfl

theorem Digits.lead (ds : Digits) : ∃ c cs, ds.chars = c :: cs ∧ c.isDigit := by
  obtain ⟨c, cs, front⟩ := List.exists_cons_of_ne_nil ds.nonempty
  have digits := ds.digits
  rw [front] at digits
  exact ⟨c, cs, front, digits c (by simp)⟩

theorem digitValue_le {c : Char} (digit : c.isDigit) : digitValue c ≤ 9 := by
  have most := (isDigit_bounds digit).2
  exact Nat.sub_le_sub_right most 48

theorem digitValue_zero {c : Char} (digit : c.isDigit) (zero : digitValue c = 0) : c = '0' := by
  have least := (isDigit_bounds digit).1
  have most : c.toNat - 48 = 0 := zero
  exact Char.toNat_inj.mp (show c.toNat = 48 by omega)

theorem exponentDigits_lead {c : Char} (digit : c.isDigit) (cs : List Char) :
    exponentDigits 0 (c :: cs) = exponentDigits (digitValue c) cs := by
  have small : digitValue c ≤ exponentLimit := Nat.le_trans (digitValue_le digit) (by decide)
  simp [exponentDigits, digit, small]

theorem yields_exponent (negative : Bool) (significand : Nat) (exponent : Int) (e : Exponent)
    {rest : List Char} (stop : EndsDigits rest) :
    Yields ((e.scale significand exponent).map (signedReal negative)) rest
      (readExponent negative significand exponent (e.tail ++ rest)) := by
  obtain ⟨c, cs, front, digit⟩ := e.digits.lead
  have run := exponentDigits_append e.digits.digits stop 0
  have sign : Decimal.splitSign (e.tail ++ rest) =
      (decide (e.sign = .minus), c :: (cs ++ rest)) := by
    rw [Exponent.tail, front, List.append_assoc]
    exact splitSign_text e.sign digit (cs ++ rest)
  rw [front, List.cons_append, exponentDigits_lead digit, exponentDigits_lead digit] at run
  rw [readExponent, sign, Exponent.scale, front, exponentDigits_lead digit]
  simp only [digit, Bool.not_true, Bool.false_eq_true, if_false]
  cases value : exponentDigits (digitValue c) cs with
  | ok found =>
    rw [value] at run
    simp only [run, decide_eq_true_eq]
    exact yields_scaled negative significand _ rest
  | error more =>
    rw [value] at run
    obtain ⟨run, digits⟩ := run
    simp only [run, dropWhile_digits digits stop, decide_eq_false_iff_not]
    split
    · exact ⟨_, rfl⟩
    · rfl

theorem isDigit_mark {c : Char} (mark : isExponentMark c) : c.isDigit = false ∧ c ≠ '.' := by
  rcases Bool.or_eq_true_iff.mp mark with small | large
  · rw [eq_of_beq small]
    decide
  · rw [eq_of_beq large]
    decide

theorem readFraction_digits (negative : Bool) (significand excess : Nat) (ds : Digits)
    {rest : List Char} (stop : EndsDigits rest) :
    readFraction negative significand excess (ds.chars ++ rest) =
      let (taken, places, _) := fractionDigits significand 0 ds.chars
      match rest with
      | [] => scaledNumber negative taken (excess - places) []
      | c :: more =>
        if isExponentMark c then readExponent negative taken (excess - places) more
        else scaledNumber negative taken (excess - places) rest := by
  obtain ⟨c, cs, front, digit⟩ := ds.lead
  have digits := ds.digits
  rw [front] at digits ⊢
  have run := fractionDigits_append digits stop significand 0
  rw [List.cons_append] at run
  simp only [List.cons_append, readFraction, digit, Bool.not_true, Bool.false_eq_true, if_false, run]
  cases rest <;> rfl

theorem yields_fraction (negative : Bool) (significand excess : Nat) (ds : Digits)
    (exponent : Option Exponent) {rest : List Char} (stop : EndsDigits rest)
    (mark : exponent = none → ∀ c ∈ rest.head?, isExponentMark c = false) :
    Yields ((scaleBy (fractionDigits significand 0 ds.chars).1
        (excess - (fractionDigits significand 0 ds.chars).2.1) exponent).map (signedReal negative)) rest
      (readFraction negative significand excess (ds.chars ++ (exponentPart exponent ++ rest))) := by
  cases exponent with
  | none =>
    rw [exponentPart, List.nil_append, readFraction_digits negative significand excess ds stop]
    cases rest with
    | nil => exact yields_scaled _ _ _ _
    | cons c rest =>
      simp only [mark rfl c rfl, Bool.false_eq_true, if_false]
      exact yields_scaled _ _ _ _
  | some e =>
    have noDigit := (isDigit_mark e.is_mark).1
    rw [exponentPart, List.cons_append, readFraction_digits negative significand excess ds
      (endsDigits_cons (e.tail ++ rest) noDigit)]
    simp only [e.is_mark, if_true]
    exact yields_exponent negative _ _ e stop

theorem wholeDigits_lead {c : Char} (digit : c.isDigit) (cs : List Char) :
    wholeDigits 0 0 (c :: cs) = wholeDigits (digitValue c) 0 cs := by
  have small : digitValue c ≤ wordLimit := Nat.le_trans (digitValue_le digit) (by decide)
  simp [wholeDigits, digit, small]

theorem readUnsigned_literal (l : Literal) {rest : List Char} (stop : EndsDigits rest) :
    readUnsigned l.negative (l.whole.chars ++ rest) =
      readAfterWhole l.negative l.wholePart.1 l.wholePart.2 rest := by
  obtain ⟨c, cs, front, digit⟩ := l.whole.lead
  have digits := l.whole.digits
  have canonical := l.canonical
  unfold Literal.wholePart
  rw [front] at digits canonical ⊢
  by_cases zero : c = '0'
  · subst zero
    cases (List.cons.inj (canonical rfl)).2
    exact readUnsigned_zero l.negative stop
  · have run := wholeDigits_append digits stop 0 0
    rw [List.cons_append, wholeDigits_lead digit] at run
    simp only [List.cons_append, readUnsigned, digit, Bool.not_true, Bool.false_eq_true, if_false,
      zero, run]

/-- The longest literal that a text begins with is read as the number that it denotes. -/
theorem yields_literal (l : Literal) {rest : List Char} (ends : l.Ends rest) :
    Yields l.number rest (readUnsigned l.negative (l.unsignedText ++ rest)) := by
  have behind : EndsDigits (fractionText l.fraction ++ exponentPart l.exponent ++ rest) := by
    cases l.fraction with
    | some ds => exact endsDigits_cons _ (by decide)
    | none =>
      cases l.exponent with
      | some e => exact endsDigits_cons _ (isDigit_mark e.is_mark).1
      | none => exact ends.digits
  rw [Literal.unsignedText, List.append_assoc, readUnsigned_literal l behind]
  unfold Literal.number Literal.isInteger Literal.magnitude Literal.digitsPart
  cases fraction : l.fraction with
  | none =>
    have none_ (n : Nat) : fractionDigits n 0 (fractionChars none) = (n, 0, []) := rfl
    have least (excess : Nat) : (excess : Int) - (0 : Nat) = excess := by omega
    cases exponent : l.exponent with
    | none =>
      have point := ends.point fraction exponent
      have mark := ends.mark exponent
      simp only [fractionText, exponentPart, List.nil_append, none_, least, Option.isNone_none,
        Bool.and_self, true_and, scaleBy]
      have whole : readAfterWhole l.negative l.wholePart.1 l.wholePart.2 rest =
          if l.wholePart.2 = 0 then .ok (wholeNumber l.negative l.wholePart.1, rest)
          else scaledNumber l.negative l.wholePart.1 l.wholePart.2 rest := by
        cases rest with
        | nil => rfl
        | cons c rest =>
          have noPoint := point c rfl
          have noMark := mark c rfl
          simp only [readAfterWhole, noPoint, noMark, if_false, Bool.false_eq_true]
      rw [whole]
      split
      · rfl
      · exact yields_scaled _ _ _ _
    | some e =>
      have noPoint := (isDigit_mark e.is_mark).2
      simp only [fractionText, exponentPart, List.nil_append, List.cons_append, readAfterWhole,
        noPoint, e.is_mark, if_false, if_true, Option.isNone_some, Bool.and_false,
        Bool.false_eq_true, false_and, none_, least, scaleBy]
      exact yields_exponent _ _ _ e ends.digits
  | some ds =>
    simp only [fractionText, List.cons_append, List.append_assoc, readAfterWhole, if_true,
      Option.isNone_some, Bool.false_and, Bool.false_eq_true, false_and, if_false]
    exact yields_fraction l.negative _ _ ds l.exponent ends.digits ends.mark

theorem exponent_of_read {negative : Bool} {significand : Nat} {exponent : Int} {cs : List Char}
    {result : Number × List Char} (read : readExponent negative significand exponent cs = .ok result) :
    ∃ (sign : Sign) (ds : Digits) (rest : List Char),
      cs = sign.text ++ ds.chars ++ rest ∧ EndsDigits rest := by
  obtain ⟨sign, same⟩ : ∃ sign : Sign, cs = sign.text ++ (Decimal.splitSign cs).2 := by
    unfold Decimal.splitSign
    split
    · exact ⟨.minus, rfl⟩
    · exact ⟨.plus, rfl⟩
    · exact ⟨.absent, rfl⟩
  unfold readExponent at read
  split at read
  · cases read
  · rename_i downward c more split_
    rw [split_] at same
    split at read
    · cases read
    · rename_i digit
      obtain ⟨ds, rest, run, digits, stop⟩ :=
        split_digits (by simpa using digit : c.isDigit = true) more
      refine ⟨sign, ⟨c :: ds, by simp, digits⟩, rest, ?_, stop⟩
      rw [same, List.append_assoc]
      exact congrArg _ run

theorem fraction_of_read {negative : Bool} {significand excess : Nat} {cs : List Char}
    {result : Number × List Char} (read : readFraction negative significand excess cs = .ok result) :
    ∃ (ds : Digits) (exponent : Option Exponent) (rest : List Char),
      cs = ds.chars ++ (exponentPart exponent ++ rest) ∧ EndsDigits rest ∧
        (exponent = none → ∀ c ∈ rest.head?, isExponentMark c = false) := by
  cases cs with
  | nil => cases read
  | cons c cs =>
  by_cases digit : c.isDigit
  swap
  · simp [readFraction, digit] at read
  obtain ⟨ds, rest, run, digits, stop⟩ := split_digits digit cs
  let fraction : Digits := ⟨c :: ds, by simp, digits⟩
  have behind := readFraction_digits negative significand excess fraction stop
  rw [show fraction.chars ++ rest = c :: cs from run.symm, read] at behind
  cases rest with
  | nil => exact ⟨fraction, none, [], run, stop, by simp⟩
  | cons e tail =>
  by_cases mark : isExponentMark e
  · simp only [mark, if_true] at behind
    obtain ⟨sign, power, rest, rfl, last⟩ := exponent_of_read behind.symm
    refine ⟨fraction, some ⟨e, mark, sign, power⟩, rest, ?_, last, by simp⟩
    rw [run]
    simp [fraction, exponentPart, Exponent.tail]
  · exact ⟨fraction, none, e :: tail, run, stop, fun _ => by simpa using mark⟩

/-- The whole digits alone are a literal, from which the longer ones are made. -/
theorem whole_of_read {negative : Bool} {cs : List Char} {result : Number × List Char}
    (read : readUnsigned negative cs = .ok result) :
    ∃ (l : Literal) (rest : List Char), l.negative = negative ∧ l.fraction = none ∧
      l.exponent = none ∧ cs = l.whole.chars ++ rest ∧ EndsDigits rest := by
  cases cs with
  | nil => cases read
  | cons c cs =>
  by_cases digit : c.isDigit
  swap
  · simp [readUnsigned, digit] at read
  obtain ⟨ds, rest, run, digits, stop⟩ := split_digits digit cs
  have canonical : (c :: ds).head? = some '0' → c :: ds = ['0'] := by
    intro zero
    cases Option.some.inj zero
    cases ds with
    | nil => rfl
    | cons d ds =>
      have second : d.isDigit := digits d (by simp)
      rw [run] at read
      simp [readUnsigned, second] at read
  exact ⟨⟨negative, ⟨c :: ds, by simp, digits⟩, canonical, none, none⟩, rest, rfl, rfl, rfl, run,
    stop⟩

theorem literal_of_read {negative : Bool} {cs : List Char} {result : Number × List Char}
    (read : readUnsigned negative cs = .ok result) :
    ∃ (l : Literal) (rest : List Char),
      l.negative = negative ∧ cs = l.unsignedText ++ rest ∧ l.Ends rest := by
  obtain ⟨l, rest, rfl, noFraction, noExponent, rfl, stop⟩ := whole_of_read read
  rw [readUnsigned_literal l stop] at read
  have plain (noPoint : ∀ d ∈ rest.head?, d ≠ '.')
      (noMark : ∀ d ∈ rest.head?, isExponentMark d = false) :
      ∃ (m : Literal) (rest' : List Char), m.negative = l.negative ∧
        l.whole.chars ++ rest = m.unsignedText ++ rest' ∧ m.Ends rest' := by
    refine ⟨l, rest, rfl, ?_, stop, fun _ _ => noPoint, fun _ => noMark⟩
    simp [Literal.unsignedText, noFraction, noExponent, fractionText, exponentPart]
  cases rest with
  | nil => exact plain (by simp) (by simp)
  | cons d tail =>
  by_cases point : d = '.'
  · subst point
    simp only [readAfterWhole, if_true] at read
    obtain ⟨fraction, exponent, rest, rfl, ends, mark⟩ := fraction_of_read read
    refine ⟨{ l with fraction := some fraction, exponent }, rest, rfl, ?_, ends, ?_, mark⟩
    · simp [Literal.unsignedText, fractionText]
    · intro absent
      cases absent
  by_cases mark : isExponentMark d
  · simp only [readAfterWhole, point, mark, if_false, if_true] at read
    obtain ⟨sign, power, rest, rfl, ends⟩ := exponent_of_read read
    refine ⟨{ l with exponent := some ⟨d, mark, sign, power⟩ }, rest, rfl, ?_, ends, ?_, ?_⟩
    · simp [Literal.unsignedText, noFraction, fractionText, exponentPart, Exponent.tail]
    · intro _ absent
      cases absent
    · intro absent
      cases absent
  · exact plain (by simpa using point) (by simpa using mark)

theorem Literal.lead (l : Literal) : ∃ c cs, l.unsignedText = c :: cs ∧ c.isDigit := by
  obtain ⟨c, cs, front, digit⟩ := l.whole.lead
  exact ⟨c, _, by rw [unsignedText, front]; rfl, digit⟩

theorem yields_numeral (l : Literal) {rest : List Char} (ends : l.Ends rest) :
    Yields l.number rest (readNumeral (l.text ++ rest)) := by
  have read := yields_literal l ends
  unfold Literal.text
  cases sign : l.negative with
  | true =>
    rw [sign] at read
    exact read
  | false =>
    obtain ⟨c, cs, front, digit⟩ := l.lead
    rw [sign] at read
    simp only [Bool.false_eq_true, if_false]
    rw [front, List.cons_append] at read ⊢
    rw [readNumeral_digit digit]
    exact read

theorem literal_of_numeral {cs rest : List Char} {number : Number}
    (read : readNumeral cs = .ok (number, rest)) :
    ∃ l : Literal, cs = l.text ++ rest ∧ l.number = some number := by
  have settle (l : Literal) (rest' : List Char) (text : cs = l.text ++ rest') (ends : l.Ends rest') :
      ∃ l : Literal, cs = l.text ++ rest ∧ l.number = some number := by
    have yields := yields_numeral l ends
    rw [← text, read] at yields
    cases value : l.number with
    | none =>
      rw [value] at yields
      obtain ⟨fault, refused⟩ := yields
      cases refused
    | some other =>
      rw [value] at yields
      cases yields
      exact ⟨l, text, value⟩
  unfold readNumeral at read
  split at read
  · obtain ⟨l, rest', sign, text, ends⟩ := literal_of_read read
    refine settle l rest' ?_ ends
    rw [Literal.text, sign, text]
    rfl
  · obtain ⟨l, rest', sign, text, ends⟩ := literal_of_read read
    refine settle l rest' ?_ ends
    rw [Literal.text, sign, text]
    rfl

namespace Literal

theorem text_lead (l : Literal) : ∃ c cs, l.text = c :: cs ∧ startsNumeral c := by
  obtain ⟨c, cs, front, digit⟩ := l.lead
  unfold text
  split
  · exact ⟨'-', _, rfl, by decide⟩
  · exact ⟨c, cs, front, by simp [startsNumeral, digit]⟩

theorem ends (l : Literal) {rest : List Char} (stop : EndsNumeral rest) : l.Ends rest where
  digits := stop.digits
  point := fun _ _ c member => (stop c member).2.1
  mark := fun _ c member => (stop c member).2.2

end Literal

end TickReplay.Json
