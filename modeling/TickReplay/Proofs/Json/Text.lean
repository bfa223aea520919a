import TickReplay.Json.Text

/- A string that has been written reads back. Writing is one escape a character, so the reader is
   followed over one escape at a time; what stands behind the closing quote is left alone. -/
namespace TickReplay.Json

theorem readTextFrom_skip (front read rest : List Char) :
    readTextFrom front.length read (front ++ rest) = readTextFrom 0 read rest := by
  induction front with
  | nil => rfl
  | cons c front ih => exact ih

theorem hexValue_hexDigit : ∀ n, n < 16 → hexValue (hexDigit n) = some n := by decide

theorem readEscape_control (c : Char) (control : c.toNat < 0x20) (rest : List Char) :
    readEscape (['u', '0', '0', hexDigit (c.toNat / 16), hexDigit (c.toNat % 16)] ++ rest) =
      .ok (c, 5) := by
  have high := hexValue_hexDigit (c.toNat / 16) (by omega)
  have low := hexValue_hexDigit (c.toNat % 16) (by omega)
  have zero : hexValue '0' = some 0 := by decide
  have value : c.toNat / 16 * 16 + c.toNat % 16 = c.toNat := by omega
  have quad : hexQuad '0' '0' (hexDigit (c.toNat / 16)) (hexDigit (c.toNat % 16)) =
      some c.toNat := by
    simp [hexQuad, high, low, zero, value]
  have noTrail : isTrailUnit c.toNat = false := by simp [isTrailUnit]; omega
  have noLead : isLeadUnit c.toNat = false := by simp [isLeadUnit]; omega
  have unit : readUnicode ('0' :: '0' :: hexDigit (c.toNat / 16) :: hexDigit (c.toNat % 16) ::
      rest) = .ok (c, 4) := by
    simp only [readUnicode, readUnit, quad, bind, Except.bind, noTrail, noLead]
    simp [pure, Except.pure]
  simp only [List.cons_append, List.nil_append, readEscape]
  rw [unit]
  rfl

theorem readTextFrom_escapeChar (c : Char) (read rest : List Char) :
    readTextFrom 0 read (escapeChar c ++ rest) = readTextFrom 0 (c :: read) rest := by
  unfold escapeChar
  split
  · subst c; rfl
  split
  · subst c; rfl
  split
  · subst c; rfl
  split
  · subst c; rfl
  split
  · subst c; rfl
  split
  · subst c; rfl
  split
  · subst c; rfl
  rename_i noQuote noSlash _ _ _ _ _
  split
  · rename_i control
    have escape := readEscape_control c control rest
    have skip := readTextFrom_skip
      ['u', '0', '0', hexDigit (c.toNat / 16), hexDigit (c.toNat % 16)] (c :: read) rest
    simp only [List.cons_append, List.nil_append] at escape
    simp only [List.cons_append, List.nil_append, readTextFrom, escape]
    exact skip
  · rename_i shown
    simp [readTextFrom, noQuote, noSlash, shown]

theorem readTextFrom_escape (cs read rest : List Char) :
    readTextFrom 0 read (escape cs ++ '"' :: rest) = .ok (read.reverse ++ cs, rest) := by
  induction cs generalizing read with
  | nil => simp [escape, readTextFrom]
  | cons c cs ih =>
    have first := readTextFrom_escapeChar c read (escape cs ++ '"' :: rest)
    have rest := ih (c :: read)
    simp only [escape, List.flatMap_cons, List.append_assoc] at first rest ⊢
    rw [first, rest]
    simp

theorem readText_escape (cs rest : List Char) :
    readText (escape cs ++ '"' :: rest) = .ok (cs, rest) :=
  readTextFrom_escape cs [] rest

end TickReplay.Json
