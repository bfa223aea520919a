import Mathlib.Data.List.TakeWhile
import TickReplay.Proofs.Json.Denotation
import TickReplay.Proofs.Json.Spelling
import TickReplay.Proofs.Tick.Wire

/- The payloads of a tick as a grammar, and what the reader of each of their tokens takes. An object
   has the four members once each in any order, a list has the four values in order of declaration.
   Blanks may stand in front of every token and at the end. -/
namespace TickReplay.Tick

open Json (Fault Literal QuotedText EndsNumeral skipSpace isSpace)

def Blank (text : List Char) : Prop := ∀ c ∈ text, isSpace c

theorem blank_nil : Blank [] := fun _ inside => absurd inside (by simp)

/-- A whole number without point and exponent; minus zero is none. -/
def TimestampText (timestamp : Int64) (text : List Char) : Prop :=
  ∃ l : Literal, l.text = text ∧ l.isInteger ∧ text ≠ ['-', '0'] ∧ l.value = timestamp.toInt

/-- Any literal that is converted to something, which those out of range are not. -/
def RealText (x : Binary64) (text : List Char) : Prop :=
  ∃ (l : Literal) (code : Nat), l.text = text ∧ l.Converts code ∧ Binary64.ofCode l.negative code = x

def ValueText (t : Tick) : Field → List Char → Prop
  | .timestamp => TimestampText t.timestamp
  | .symbol => fun text => QuotedText text t.symbol.toList
  | .price => RealText t.price
  | .volume => RealText t.volume

inductive ElementText (t : Tick) (field : Field) : List Char → Prop where
  | value {gap text : List Char} (blank : Blank gap) (value : ValueText t field text) :
      ElementText t field (gap ++ text)

inductive MemberText (t : Tick) (field : Field) : List Char → Prop where
  | pair {gap key before value : List Char} (blank : Blank gap)
      (name : QuotedText key field.name.toList) (colonBlank : Blank before)
      (element : ElementText t field value) :
      MemberText t field (gap ++ (key ++ (before ++ ':' :: value)))

inductive Items (item : Field → List Char → Prop) : Bool → List Field → List Char → Prop where
  | none {first : Bool} : Items item first [] []
  | next {first : Bool} {gap text more : List Char} {field : Field} {fields : List Field}
      (blank : Blank gap) (head : item field text) (others : Items item false fields more) :
      Items item first (field :: fields) (gap ++ (separator first ++ (text ++ more)))

inductive Payload (t : Tick) : List Char → Prop where
  | object {front body gap back : List Char} {order : List Field} (frontBlank : Blank front)
      (members : Items (MemberText t) true order body) (once : order.Perm Field.all)
      (blank : Blank gap) (backBlank : Blank back) :
      Payload t (front ++ '\x7b' :: (body ++ (gap ++ '\x7d' :: back)))
  | list {front body gap back : List Char} (frontBlank : Blank front)
      (elements : Items (ElementText t) true Field.all body) (blank : Blank gap)
      (backBlank : Blank back) :
      Payload t (front ++ '[' :: (body ++ (gap ++ ']' :: back)))

theorem skipSpace_blank {gap : List Char} (blank : Blank gap) (cs : List Char) :
    skipSpace (gap ++ cs) = skipSpace cs :=
  List.dropWhile_append_of_pos blank

theorem skipSpace_gap {gap : List Char} (blank : Blank gap) {c : Char}
    (shown : isSpace c = false) (rest : List Char) : skipSpace (gap ++ c :: rest) = c :: rest := by
  rw [skipSpace_blank blank, skipSpace_cons shown]

theorem skipSpace_split (cs : List Char) : ∃ gap, Blank gap ∧ cs = gap ++ skipSpace cs := by
  refine ⟨cs.takeWhile isSpace, ?_, (List.takeWhile_append_dropWhile).symm⟩
  intro c member
  exact List.mem_takeWhile_imp member

theorem gap_of_skipSpace {cs rest : List Char} (next : skipSpace cs = rest) :
    ∃ gap, Blank gap ∧ cs = gap ++ rest := by
  subst next
  exact skipSpace_split cs

theorem skipSpace_eq_iff {c : Char} (shown : isSpace c = false) (cs rest : List Char) :
    skipSpace cs = c :: rest ↔ ∃ gap, Blank gap ∧ cs = gap ++ c :: rest := by
  constructor
  · exact gap_of_skipSpace
  · intro given
    rcases given with ⟨gap, blank, rfl⟩
    exact skipSpace_gap blank shown rest

theorem skipSpace_nil_iff (cs : List Char) : skipSpace cs = [] ↔ Blank cs :=
  List.dropWhile_eq_nil_iff

theorem colon_ok_iff (cs rest : List Char) :
    Json.colon cs = .ok rest ↔ ∃ gap, Blank gap ∧ cs = gap ++ ':' :: rest := by
  rw [← skipSpace_eq_iff (by decide), Json.colon]
  cases skipSpace cs with
  | nil => simp
  | cons c more => by_cases mark : c = ':' <;> simp [mark]

theorem closeObject_ok_iff (cs rest : List Char) :
    Json.closeObject cs = .ok rest ↔ ∃ gap, Blank gap ∧ cs = gap ++ '\x7d' :: rest := by
  rw [← skipSpace_eq_iff (by decide), Json.closeObject]
  cases skipSpace cs with
  | nil => simp
  | cons c more =>
    by_cases mark : c = '\x7d'
    · simp [mark]
    · by_cases comma : c = ',' <;> simp [mark, comma]

theorem closeList_ok_iff (cs rest : List Char) :
    Json.closeList cs = .ok rest ↔ ∃ gap, Blank gap ∧ cs = gap ++ ']' :: rest := by
  rw [← skipSpace_eq_iff (by decide), Json.closeList]
  cases skipSpace cs with
  | nil => simp
  | cons c more =>
    by_cases mark : c = ']'
    · simp [mark]
    · by_cases comma : c = ','
      · subst comma
        dsimp only
        rw [if_neg mark, if_pos rfl]
        split <;> simp
      · simp [mark, comma]

theorem finish_ok_iff (cs : List Char) : Json.finish cs = .ok () ↔ Blank cs := by
  rw [← skipSpace_nil_iff, Json.finish]
  cases skipSpace cs <;> simp

theorem readKey_some_iff (c : Char) (cs key rest : List Char) :
    Json.readKey c cs = .ok (some (key, rest)) ↔
      ∃ text, QuotedText text key ∧ c :: cs = text ++ rest := by
  by_cases quote : c = '"'
  · subst quote
    rw [← Json.readText_ok_iff, Json.readKey, if_pos rfl, map_ok_iff]
    simp
  · simp only [Json.readKey, quote, if_false, reduceCtorEq, false_iff, not_exists, not_and]
    intro text quoted same
    obtain ⟨more, rfl⟩ := quoted.lead
    exact quote (List.cons.inj same).1

theorem nextKey_some_iff (first : Bool) (cs key rest : List Char) :
    Json.nextKey first cs = .ok (some (key, rest)) ↔
      ∃ gap inner text, Blank gap ∧ Blank inner ∧ QuotedText text key ∧
        cs = gap ++ (separator first ++ (inner ++ (text ++ rest))) := by
  constructor
  · intro next
    unfold Json.nextKey at next
    cases front : skipSpace cs with
    | nil => simp [front] at next
    | cons c behind =>
    obtain ⟨gap, blank, rfl⟩ := gap_of_skipSpace front
    simp only [front] at next
    split at next
    · cases next
    split at next
    · rename_i is_first
      obtain ⟨text, quoted, same⟩ := (readKey_some_iff c behind key rest).mp next
      exact ⟨gap, [], text, blank, blank_nil, quoted, by simp [separator, is_first, same]⟩
    rename_i later
    split at next
    · cases next
    rename_i comma
    cases inside : skipSpace behind with
    | nil => simp [inside] at next
    | cons d more =>
    obtain ⟨inner, innerBlank, rfl⟩ := gap_of_skipSpace inside
    simp only [inside] at next
    split at next
    · cases next
    obtain ⟨text, quoted, same⟩ := (readKey_some_iff d more key rest).mp next
    exact ⟨gap, inner, text, blank, innerBlank, quoted,
      by simp [separator, later, same, Decidable.not_not.mp comma]⟩
  · intro given
    rcases given with ⟨gap, inner, text, blank, innerBlank, quoted, rfl⟩
    obtain ⟨more, rfl⟩ := quoted.lead
    have key := (readKey_some_iff '"' (more ++ rest) key rest).mpr ⟨_, quoted, rfl⟩
    have inside := skipSpace_gap innerBlank (c := '"') (by decide) (more ++ rest)
    cases first with
    | true => simp [Json.nextKey, separator, skipSpace_blank blank, inside, key]
    | false =>
      have front := skipSpace_gap blank (c := ',') (by decide) (inner ++ '"' :: (more ++ rest))
      simp [Json.nextKey, separator, front, inside, key]

theorem nextKey_none {gap : List Char} (blank : Blank gap) (first : Bool) (more : List Char) :
    Json.nextKey first (gap ++ '\x7d' :: more) = .ok none := by
  rw [Json.nextKey, skipSpace_gap blank (by decide)]
  rfl

theorem gaps_of_nextElement {first : Bool} {cs rest : List Char}
    (next : Json.nextElement first cs = .ok (some rest)) :
    ∃ gap inner, Blank gap ∧ Blank inner ∧ cs = gap ++ (separator first ++ (inner ++ rest)) := by
  unfold Json.nextElement at next
  cases front : skipSpace cs with
  | nil => simp [front] at next
  | cons c behind =>
  obtain ⟨gap, blank, rfl⟩ := gap_of_skipSpace front
  simp only [front] at next
  split at next
  · cases next
  split at next
  · rename_i is_first
    cases next
    exact ⟨gap, [], blank, blank_nil, by simp [separator, is_first]⟩
  rename_i later
  split at next
  · cases next
  rename_i comma
  cases inside : skipSpace behind with
  | nil => simp [inside] at next
  | cons d more =>
  obtain ⟨inner, innerBlank, rfl⟩ := gap_of_skipSpace inside
  simp only [inside] at next
  split at next
  · cases next
  cases next
  exact ⟨gap, inner, blank, innerBlank,
    by simp [separator, later, Decidable.not_not.mp comma]⟩

theorem nextElement_gaps {gap inner : List Char} (blank : Blank gap) (innerBlank : Blank inner)
    (first : Bool) {c : Char} (shown : isSpace c = false) (inside : c ≠ ']') (rest : List Char) :
    Json.nextElement first (gap ++ (separator first ++ (inner ++ c :: rest))) =
      .ok (some (c :: rest)) := by
  have behind := skipSpace_gap innerBlank shown rest
  cases first with
  | true => simp [Json.nextElement, separator, skipSpace_blank blank, behind, inside]
  | false =>
    have front := skipSpace_gap blank (c := ',') (by decide) (inner ++ c :: rest)
    simp [Json.nextElement, separator, front, behind, inside]

theorem literal_of_readNumber {wanted : String} {cs rest : List Char} {number : Json.Number}
    (read : readNumber wanted cs = .ok (number, rest)) :
    ∃ gap, ∃ l : Literal, Blank gap ∧ cs = gap ++ (l.text ++ rest) ∧ l.number = some number := by
  unfold readNumber at read
  cases front : skipSpace cs with
  | nil => simp [front] at read
  | cons c more =>
    obtain ⟨gap, blank, rfl⟩ := gap_of_skipSpace front
    simp only [front] at read
    split at read
    · obtain ⟨l, text, value⟩ := Json.literal_of_numeral read
      exact ⟨gap, l, blank, by rw [text], value⟩
    · cases read

theorem readNumber_literal (wanted : String) {gap : List Char} (blank : Blank gap) {l : Literal}
    {number : Json.Number} (value : l.number = some number) {rest : List Char}
    (stop : EndsNumeral rest) : readNumber wanted (gap ++ (l.text ++ rest)) = .ok (number, rest) := by
  have read := Json.yields_numeral l (l.ends stop)
  rw [value] at read
  obtain ⟨c, cs, front, numeral⟩ := l.text_lead
  rw [front, List.cons_append] at read ⊢
  have behind : readNumber wanted (gap ++ c :: (cs ++ rest)) =
      readNumber wanted (c :: (cs ++ rest)) := by
    rw [readNumber, readNumber, skipSpace_blank blank]
  rw [behind, readNumber_numeral wanted numeral]
  exact read

theorem timestamp_of_read {cs rest : List Char} {timestamp : Int64}
    (read : readTimestamp cs = .ok (timestamp, rest)) :
    ∃ gap text, Blank gap ∧ TimestampText timestamp text ∧ cs = gap ++ (text ++ rest) := by
  unfold readTimestamp at read
  obtain ⟨⟨number, behind⟩, numeral, read⟩ := (bind_ok_iff _ _ _).mp read
  obtain ⟨gap, l, blank, rfl, value⟩ := literal_of_readNumber numeral
  cases number with
  | real x => cases read
  | integer n =>
    dsimp only at read
    split at read
    swap
    · cases read
    rename_i small
    obtain ⟨rfl, rfl⟩ := Prod.mk.inj (Except.ok.inj read)
    obtain ⟨integer, noMinusZero, same, low, _⟩ := (l.number_integer_iff n).mp value
    refine ⟨gap, l.text, blank, ⟨l, rfl, integer, noMinusZero, ?_⟩, rfl⟩
    rw [same, Int64.toInt_ofInt_of_le low small]

theorem readTimestamp_text {gap text rest : List Char} {timestamp : Int64} (blank : Blank gap)
    (value : TimestampText timestamp text) (stop : EndsNumeral rest) :
    readTimestamp (gap ++ (text ++ rest)) = .ok (timestamp, rest) := by
  obtain ⟨l, rfl, integer, noMinusZero, same⟩ := value
  have low : -(half64 : Int) ≤ timestamp.toInt := timestamp.le_toInt
  have small : timestamp.toInt < (half64 : Int) := timestamp.toInt_lt
  have wide : half64 ≤ Json.wordLimit := by decide
  have number := (l.number_integer_iff timestamp.toInt).mpr
    ⟨integer, noMinusZero, same, low, by omega⟩
  unfold readTimestamp
  rw [readNumber_literal timestampWanted blank number stop]
  simp [bind, Except.bind, pure, Except.pure, small]

theorem realOfNumber_wholeNumber (negative : Bool) (n : Nat) :
    realOfNumber (Json.wholeNumber negative n) =
      Binary64.ofCode negative (Binary64.ofNat n) := by
  unfold Json.wholeNumber
  cases negative with
  | false =>
    have positive : ¬ (n : Int) < 0 := by omega
    simp only [Bool.not_false, if_true, realOfNumber, Int.natAbs_natCast, positive, decide_false]
  | true =>
    simp only [Bool.not_true, Bool.false_eq_true, if_false]
    split
    · rename_i inside
      have below : -(n : Int) < 0 := by omega
      simp only [realOfNumber, Int.natAbs_neg, Int.natAbs_natCast, below, decide_true]
    · rfl

theorem real_of_number (l : Literal) :
    l.number.map realOfNumber = l.magnitude.map (Binary64.ofCode l.negative) := by
  unfold Literal.number
  split
  · rename_i whole
    obtain ⟨integer, fit⟩ := whole
    obtain ⟨noFraction, noExponent⟩ := Bool.and_eq_true_iff.mp integer
    rw [Option.isNone_iff_eq_none] at noFraction noExponent
    have part : l.digitsPart = (l.wholePart.1, 0) := by
      simp [Literal.digitsPart, noFraction, Json.fractionChars, Json.fractionDigits, fit]
    rw [Literal.magnitude, part, noExponent, Json.scaleBy, Json.scaled_whole l.wholePart_le,
      Option.map_some, Option.map_some, realOfNumber_wholeNumber]
  · rw [Option.map_map]
    rfl

theorem converted_iff (l : Literal) (x : Binary64) :
    (∃ code, l.Converts code ∧ Binary64.ofCode l.negative code = x) ↔
      ∃ number, l.number = some number ∧ realOfNumber number = x := by
  simp only [l.converts_iff, ← Option.map_eq_some_iff, real_of_number]

theorem real_of_read {cs rest : List Char} {x : Binary64} (read : readReal cs = .ok (x, rest)) :
    ∃ gap text, Blank gap ∧ RealText x text ∧ cs = gap ++ (text ++ rest) := by
  unfold readReal at read
  obtain ⟨⟨number, behind⟩, numeral, read⟩ := (bind_ok_iff _ _ _).mp read
  obtain ⟨rfl, rfl⟩ := Prod.mk.inj (Except.ok.inj read)
  obtain ⟨gap, l, blank, rfl, value⟩ := literal_of_readNumber numeral
  obtain ⟨code, converts, same⟩ := (converted_iff l _).mpr ⟨number, value, rfl⟩
  exact ⟨gap, l.text, blank, ⟨l, code, rfl, converts, same⟩, rfl⟩

theorem readReal_text {gap text rest : List Char} {x : Binary64} (blank : Blank gap)
    (value : RealText x text) (stop : EndsNumeral rest) :
    readReal (gap ++ (text ++ rest)) = .ok (x, rest) := by
  obtain ⟨l, code, rfl, converts, same⟩ := value
  obtain ⟨number, value, rfl⟩ := (converted_iff l x).mp ⟨code, converts, same⟩
  unfold readReal
  rw [readNumber_literal realWanted blank value stop]
  rfl

theorem symbol_of_read {cs rest : List Char} {symbol : String}
    (read : readSymbol cs = .ok (symbol, rest)) :
    ∃ gap text, Blank gap ∧ QuotedText text symbol.toList ∧ cs = gap ++ (text ++ rest) := by
  unfold readSymbol at read
  cases front : skipSpace cs with
  | nil => simp [front] at read
  | cons c more =>
    obtain ⟨gap, blank, rfl⟩ := gap_of_skipSpace front
    rw [front] at read
    split at read
    · cases read
    · rename_i inner same
      cases same
      obtain ⟨⟨chars, behind⟩, text, same⟩ := (map_ok_iff _ _ _).mp read
      obtain ⟨rfl, rfl⟩ := Prod.mk.inj same
      obtain ⟨quoted, spelling, written⟩ := (Json.readText_ok_iff _ _ _).mp text
      exact ⟨gap, quoted, blank, by simpa using spelling, by rw [written]⟩
    · cases read

theorem readSymbol_text {gap text : List Char} {symbol : String} (blank : Blank gap)
    (value : QuotedText text symbol.toList) (rest : List Char) :
    readSymbol (gap ++ (text ++ rest)) = .ok (symbol, rest) := by
  obtain ⟨more, rfl⟩ := value.lead
  have read := (Json.readText_ok_iff (more ++ rest) symbol.toList rest).mpr ⟨_, value, rfl⟩
  have front := skipSpace_gap blank (c := '"') (by decide) (more ++ rest)
  simp [readSymbol, front, read, Except.map]

theorem ValueText.lead {t : Tick} {field : Field} {text : List Char}
    (value : ValueText t field text) :
    ∃ c more, text = c :: more ∧ isSpace c = false ∧ c ≠ ']' := by
  have literal (l : Literal) (same : l.text = text) :
      ∃ c more, text = c :: more ∧ isSpace c = false ∧ c ≠ ']' := by
    obtain ⟨c, more, front, numeral⟩ := l.text_lead
    refine ⟨c, more, same.symm.trans front, ?_⟩
    rcases Bool.or_eq_true_iff.mp numeral with minus | digit
    · rw [eq_of_beq minus]
      decide
    · refine ⟨isSpace_digit digit, ?_⟩
      rintro rfl
      contradiction
  cases field with
  | timestamp =>
    obtain ⟨l, same, _⟩ := value
    exact literal l same
  | symbol =>
    obtain ⟨more, rfl⟩ := QuotedText.lead value
    exact ⟨'"', more, rfl, by decide, by decide⟩
  | price =>
    obtain ⟨l, _, same, _⟩ := value
    exact literal l same
  | volume =>
    obtain ⟨l, _, same, _⟩ := value
    exact literal l same

end TickReplay.Tick
