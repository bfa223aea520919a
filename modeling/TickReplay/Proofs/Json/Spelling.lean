import TickReplay.Proofs.Json.Text
import TickReplay.Proofs.Text.Utf8

/- The spellings of a string. A character stands for itself unless it is a quote, a backslash or a
   control; any may be escaped, by a letter, by its code unit or by a pair of surrogates. The reader
   takes exactly these spellings and gives the characters that they spell. -/
namespace TickReplay.Json

def escapeLetters : List (Char × Char) :=
  [('"', '"'), ('\\', '\\'), ('/', '/'), ('b', '\x08'), ('f', '\x0c'), ('n', '\n'), ('r', '\r'),
    ('t', '\t')]

inductive HexDigit (c : Char) : Nat → Prop where
  | decimal (least : '0' ≤ c) (most : c ≤ '9') : HexDigit c (c.toNat - '0'.toNat)
  | lower (least : 'a' ≤ c) (most : c ≤ 'f') : HexDigit c (c.toNat - 'a'.toNat + 10)
  | upper (least : 'A' ≤ c) (most : c ≤ 'F') : HexDigit c (c.toNat - 'A'.toNat + 10)

inductive UnitText : List Char → Nat → Prop where
  | digits {a b c d : Char} {p q r s : Nat} (first : HexDigit a p) (second : HexDigit b q)
      (third : HexDigit c r) (fourth : HexDigit d s) :
      UnitText [a, b, c, d] (p * 4096 + q * 256 + r * 16 + s)

def LeadUnit (unit : Nat) : Prop := 0xD800 ≤ unit ∧ unit ≤ 0xDBFF
def TrailUnit (unit : Nat) : Prop := 0xDC00 ≤ unit ∧ unit ≤ 0xDFFF

def pairPoint (lead trail : Nat) : Nat := (lead - 0xD800) * 1024 + (trail - 0xDC00) + 0x10000

inductive Escape : List Char → Char → Prop where
  | letter {mark c : Char} (known : (mark, c) ∈ escapeLetters) : Escape [mark] c
  | unit {text : List Char} {unit : Nat} (digits : UnitText text unit)
      (noLead : ¬ LeadUnit unit) (noTrail : ¬ TrailUnit unit) : Escape ('u' :: text) (Char.ofNat unit)
  | pair {front back : List Char} {lead trail : Nat} (first : UnitText front lead)
      (second : UnitText back trail) (is_lead : LeadUnit lead) (is_trail : TrailUnit trail) :
      Escape ('u' :: (front ++ '\\' :: 'u' :: back)) (Char.ofNat (pairPoint lead trail))

inductive Piece : List Char → Char → Prop where
  | plain {c : Char} (noQuote : c ≠ '"') (noSlash : c ≠ '\\') (shown : 0x20 ≤ c.toNat) : Piece [c] c
  | escaped {text : List Char} {c : Char} (escape : Escape text c) : Piece ('\\' :: text) c

inductive Spelling : List Char → List Char → Prop where
  | nil : Spelling [] []
  | cons {piece text : List Char} {c : Char} {chars : List Char} (first : Piece piece c)
      (others : Spelling text chars) : Spelling (piece ++ text) (c :: chars)

inductive QuotedText : List Char → List Char → Prop where
  | quotes {inner chars : List Char} (spelling : Spelling inner chars) :
      QuotedText ('"' :: (inner ++ ['"'])) chars

theorem Spelling.plain {chars : List Char}
    (shown : ∀ c ∈ chars, c ≠ '"' ∧ c ≠ '\\' ∧ 0x20 ≤ c.toNat) : Spelling chars chars := by
  induction chars with
  | nil => exact .nil
  | cons c chars ih =>
    obtain ⟨⟨noQuote, noSlash, visible⟩, others⟩ := List.forall_mem_cons.mp shown
    exact .cons (.plain noQuote noSlash visible) (ih others)

theorem QuotedText.lead {text chars : List Char} (quoted : QuotedText text chars) :
    ∃ more, text = '"' :: more := by
  cases quoted
  exact ⟨_, rfl⟩

theorem UnitText.length {text : List Char} {unit : Nat} (digits : UnitText text unit) :
    text.length = 4 := by
  cases digits
  rfl

theorem UnitText.drop {text : List Char} {unit : Nat} (digits : UnitText text unit)
    (rest : List Char) : (text ++ rest).drop 4 = rest := by
  rw [← digits.length, List.drop_left]

theorem isDigit_iff_between (c : Char) : c.isDigit ↔ '0' ≤ c ∧ c ≤ '9' := by
  simp only [Char.isDigit, Char.le_def, ge_iff_le, Bool.and_eq_true, decide_eq_true_eq]

theorem hexValue_iff (c : Char) (n : Nat) : hexValue c = some n ↔ HexDigit c n := by
  unfold hexValue
  constructor
  · intro value
    split at value
    · rename_i digit
      obtain ⟨least, most⟩ := (isDigit_iff_between c).mp digit
      cases value
      exact .decimal least most
    split at value
    · rename_i letter
      cases value
      exact .lower letter.1 letter.2
    split at value
    · rename_i letter
      cases value
      exact .upper letter.1 letter.2
    · cases value
  · intro digit
    simp only [isDigit_iff_between]
    -- The three ranges have no character in common.
    cases digit with
    | decimal least most => rw [if_pos ⟨least, most⟩]
    | lower least most =>
      have above : ¬ c ≤ '9' := fun le => absurd (Char.le_trans least le) (by decide)
      rw [if_neg fun digit => above digit.2, if_pos ⟨least, most⟩]
    | upper least most =>
      have above : ¬ c ≤ '9' := fun le => absurd (Char.le_trans least le) (by decide)
      have below : ¬ 'a' ≤ c := fun le => absurd (Char.le_trans le most) (by decide)
      rw [if_neg fun digit => above digit.2, if_neg fun lower => below lower.1,
        if_pos ⟨least, most⟩]

theorem hexQuad_iff (a b c d : Char) (unit : Nat) :
    hexQuad a b c d = some unit ↔ UnitText [a, b, c, d] unit := by
  have sum (p q r s : Nat) : (p * 16 + q) * 256 + (r * 16 + s) =
      p * 4096 + q * 256 + r * 16 + s := by omega
  simp only [hexQuad, bind, pure, Option.bind_eq_some_iff, hexValue_iff, Option.some.injEq]
  constructor
  · rintro ⟨p, first, q, second, r, third, s, fourth, rfl⟩
    rw [sum]
    exact .digits first second third fourth
  · rintro ⟨first, second, third, fourth⟩
    exact ⟨_, first, _, second, _, third, _, fourth, sum _ _ _ _⟩

theorem UnitText.read {text : List Char} {unit : Nat} (digits : UnitText text unit)
    (rest : List Char) : readUnit (text ++ rest) = .ok unit := by
  cases digits with
  | digits first second third fourth =>
    have value := (hexQuad_iff _ _ _ _ _).mpr (.digits first second third fourth)
    simp [readUnit, value]

theorem unit_of_read {cs : List Char} {unit : Nat} (read : readUnit cs = .ok unit) :
    ∃ text rest, cs = text ++ rest ∧ UnitText text unit := by
  unfold readUnit at read
  split at read
  · rename_i a b c d rest
    split at read
    · rename_i value
      cases read
      exact ⟨[a, b, c, d], rest, rfl, (hexQuad_iff a b c d unit).mp value⟩
    · cases read
  · split at read <;> cases read

theorem isLeadUnit_iff (unit : Nat) : isLeadUnit unit ↔ LeadUnit unit := by
  simp [isLeadUnit, LeadUnit]

theorem isTrailUnit_iff (unit : Nat) : isTrailUnit unit ↔ TrailUnit unit := by
  simp [isTrailUnit, TrailUnit]

theorem not_trail_of_lead {unit : Nat} (lead : LeadUnit unit) : ¬ TrailUnit unit := by
  unfold LeadUnit at lead
  unfold TrailUnit
  omega

theorem expectMark_ok_iff (mark : Char) (cs rest : List Char) :
    expectMark mark cs = .ok rest ↔ cs = mark :: rest := by
  cases cs with
  | nil => simp [expectMark]
  | cons c cs =>
    by_cases same : c = mark
    · simp [expectMark, same]
    · simp [expectMark, same]

theorem readUnicode_unit {text : List Char} {unit : Nat} (digits : UnitText text unit)
    (noLead : ¬ LeadUnit unit) (noTrail : ¬ TrailUnit unit) (rest : List Char) :
    readUnicode (text ++ rest) = .ok (Char.ofNat unit, 4) := by
  have plain := Bool.eq_false_iff.mpr (mt (isLeadUnit_iff unit).mp noLead)
  simp only [readUnicode, digits.read, bind, Except.bind, isTrailUnit_iff, noTrail, plain,
    if_false, Bool.not_false, if_true]
  rfl

theorem readUnicode_pair {front back : List Char} {lead trail : Nat} (first : UnitText front lead)
    (second : UnitText back trail) (is_lead : LeadUnit lead) (is_trail : TrailUnit trail)
    (rest : List Char) :
    readUnicode (front ++ '\\' :: 'u' :: (back ++ rest)) =
      .ok (Char.ofNat (pairPoint lead trail), 10) := by
  have noTrail := not_trail_of_lead is_lead
  have begins := (isLeadUnit_iff lead).mpr is_lead
  simp only [readUnicode, first.read, first.drop, second.read, expectMark, bind, Except.bind,
    isTrailUnit_iff, begins, is_trail, noTrail, Bool.false_eq_true, if_false, Bool.not_true, if_true]
  rfl

theorem escape_of_readUnicode {cs : List Char} {c : Char} {taken : Nat}
    (read : readUnicode cs = .ok (c, taken)) :
    ∃ text rest, cs = text ++ rest ∧ taken = text.length ∧ Escape ('u' :: text) c := by
  unfold readUnicode at read
  obtain ⟨unit, first, read⟩ := (bind_ok_iff _ _ _).mp read
  obtain ⟨front, behind, rfl, digits⟩ := unit_of_read first
  simp only [digits.drop] at read
  split at read
  · cases read
  rename_i noTrail
  split at read
  · rename_i noLead
    rw [Bool.not_eq_true', ← Bool.not_eq_true, isLeadUnit_iff] at noLead
    cases read
    exact ⟨front, behind, rfl, digits.length.symm,
      .unit digits noLead (mt (isTrailUnit_iff unit).mpr noTrail)⟩
  rename_i lead
  -- A leading surrogate has to be followed by a second escape.
  simp only [bind_ok_iff, expectMark_ok_iff] at read
  obtain ⟨_, rfl, afterMark, rfl, trail, second, read⟩ := read
  obtain ⟨back, rest, rfl, others⟩ := unit_of_read second
  split at read
  · rename_i is_trail
    obtain ⟨rfl, rfl⟩ := Prod.mk.inj (Except.ok.inj read)
    refine ⟨front ++ '\\' :: 'u' :: back, rest, by simp, ?_,
      .pair digits others (by simpa [isLeadUnit_iff] using lead) ((isTrailUnit_iff _).mp is_trail)⟩
    simp [digits.length, others.length]
  · cases read

theorem readEscape_escape {text : List Char} {c : Char} (escape : Escape text c)
    (rest : List Char) : readEscape (text ++ rest) = .ok (c, text.length) := by
  cases escape with
  | letter known =>
    simp only [escapeLetters, List.mem_cons, Prod.mk.injEq, List.not_mem_nil, or_false] at known
    rcases known with same | same | same | same | same | same | same | same
    all_goals
      obtain ⟨rfl, rfl⟩ := same
      rfl
  | unit digits noLead noTrail =>
    have read := readUnicode_unit digits noLead noTrail rest
    rw [List.cons_append, List.length_cons, digits.length]
    simp [readEscape, read, Except.map]
  | pair first second is_lead is_trail =>
    have read := readUnicode_pair first second is_lead is_trail rest
    simp [readEscape, read, Except.map, first.length, second.length]

theorem escape_of_readEscape {cs : List Char} {c : Char} {taken : Nat}
    (read : readEscape cs = .ok (c, taken)) :
    ∃ text rest, cs = text ++ rest ∧ taken = text.length ∧ Escape text c := by
  cases cs with
  | nil => cases read
  | cons mark rest =>
    have letter (known : (mark, c) ∈ escapeLetters) (one : taken = 1) :
        ∃ text more, mark :: rest = text ++ more ∧ taken = text.length ∧ Escape text c :=
      ⟨[mark], rest, rfl, one, .letter known⟩
    rw [readEscape] at read
    split at read
    · rename_i same
      cases read
      refine letter ?_ rfl
      rcases same with rfl | rfl | rfl <;> decide
    iterate 5
      split at read
      · subst mark
        cases read
        exact letter (by decide) rfl
    split at read
    · subst mark
      simp only [map_ok_iff, Prod.mk.injEq] at read
      obtain ⟨⟨c, count⟩, read, rfl, rfl⟩ := read
      obtain ⟨text, more, rfl, rfl, escape⟩ := escape_of_readUnicode read
      exact ⟨'u' :: text, more, rfl, rfl, escape⟩
    · cases read

theorem readTextFrom_piece {piece : List Char} {c : Char} (spelled : Piece piece c)
    (read rest : List Char) :
    readTextFrom 0 read (piece ++ rest) = readTextFrom 0 (c :: read) rest := by
  cases spelled with
  | plain noQuote noSlash shown =>
    have noControl : ¬ c.toNat < 0x20 := Nat.not_lt.mpr shown
    simp [readTextFrom, noQuote, noSlash, noControl]
  | escaped escape =>
    rename_i text
    have taken := readEscape_escape escape rest
    have skip := readTextFrom_skip text (c :: read) rest
    simpa [readTextFrom, taken] using skip

theorem readTextFrom_spelling {text chars : List Char} (spelling : Spelling text chars)
    (read rest : List Char) :
    readTextFrom 0 read (text ++ '"' :: rest) = .ok (read.reverse ++ chars, rest) := by
  induction spelling generalizing read with
  | nil => simp [readTextFrom]
  | cons first others ih =>
    rw [List.append_assoc, readTextFrom_piece first, ih]
    simp

theorem spelling_of_readTextFrom {cs read chars rest : List Char}
    (taken : readTextFrom 0 read cs = .ok (chars, rest)) :
    ∃ text added, cs = text ++ '"' :: rest ∧ chars = read.reverse ++ added ∧
      Spelling text added := by
  -- An escape is passed over at once, so the induction is on the length and not on the text.
  induction size : cs.length using Nat.strongRecOn generalizing cs read with
  | ind n ih =>
  subst size
  cases cs with
  | nil => cases taken
  | cons c cs =>
  unfold readTextFrom at taken
  split at taken
  · rename_i quote
    cases taken
    exact ⟨[], [], by simp [quote], by simp, .nil⟩
  rename_i noQuote
  split at taken
  · rename_i slash
    split at taken
    · rename_i d count escaped
      obtain ⟨front, behind, rfl, rfl, escape⟩ := escape_of_readEscape escaped
      rw [readTextFrom_skip] at taken
      have shorter : behind.length < (c :: (front ++ behind)).length := by
        rw [List.length_cons, List.length_append]
        omega
      obtain ⟨text, added, rfl, rfl, others⟩ := ih behind.length shorter taken rfl
      exact ⟨'\\' :: front ++ text, d :: added, by simp [slash], by simp,
        .cons (.escaped escape) others⟩
    · cases taken
  rename_i noSlash
  split at taken
  · cases taken
  · rename_i shown
    obtain ⟨text, added, rfl, rfl, others⟩ := ih cs.length (by simp) taken rfl
    exact ⟨[c] ++ text, c :: added, by simp, by simp,
      .cons (.plain noQuote noSlash (Nat.not_lt.mp shown)) others⟩

theorem readText_ok_iff (cs chars rest : List Char) :
    readText cs = .ok (chars, rest) ↔
      ∃ text, QuotedText text chars ∧ '"' :: cs = text ++ rest := by
  constructor
  · intro read
    obtain ⟨text, added, rfl, rfl, spelling⟩ := spelling_of_readTextFrom read
    exact ⟨_, .quotes spelling, by simp⟩
  · intro given
    rcases given with ⟨_, quoted, same⟩
    cases quoted with
    | quotes spelling =>
      rename_i inner
      have behind : cs = inner ++ '"' :: rest := by simpa using same
      rw [behind]
      exact readTextFrom_spelling spelling [] rest

end TickReplay.Json
