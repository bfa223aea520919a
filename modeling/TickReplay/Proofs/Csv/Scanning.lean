import Mathlib.Data.List.Forall2
import TickReplay.Csv.Record
import TickReplay.Proofs.Text.Utf8

/- Records as they are written, and what the scanner makes of them. A field stands there as it is, or
   between quotes with its own quotes doubled; a record ends with any of three line ends, and further
   line ends behind it are blank lines. The scanner gives back the fields of every record. -/
namespace TickReplay.Csv

inductive LineEnd where
  | newline
  | carriageReturn
  | both
  deriving DecidableEq, Repr

def LineEnd.text : LineEnd → List Char
  | .newline => ['\n']
  | .carriageReturn => ['\r']
  | .both => ['\r', '\n']

def isSpecial (c : Char) : Bool := c == ',' || c == '"' || c == '\n' || c == '\r'

def doubled (text : List Char) : List Char :=
  text.flatMap fun c => if c = '"' then ['"', '"'] else [c]

def inQuotes (text : List Char) : List Char := '"' :: (doubled text ++ ['"'])

inductive FieldText : List Char → List Char → Prop where
  | plain {text : List Char} (ordinary : ∀ c ∈ text, isSpecial c = false) : FieldText text text
  | quoted (text : List Char) : FieldText text (inQuotes text)

def LineText (texts : List (List Char)) (line : List Char) : Prop :=
  ∃ cells, List.Forall₂ FieldText texts cells ∧ line = [','].intercalate cells

/-- Lines one behind the other, each with its line ends. Only behind the last one they may be missing. -/
inductive Lines : List (List Char) → List Char → Prop where
  | last (line : List Char) (ends : List LineEnd) : Lines [line] (line ++ ends.flatMap LineEnd.text)
  | more (line : List Char) (first : LineEnd) (blank : List LineEnd) {lines : List (List Char)}
      {rest : List Char} (later : Lines lines rest) :
      Lines (line :: lines) (line ++ ((first :: blank).flatMap LineEnd.text ++ rest))

/-- Where a scanner stands, its positions left aside: the field and the record that have begun, and
    the records before them. -/
structure Stands (s : Scanner) (mode : Mode) (field : List UInt8) (fields : List (List UInt8))
    (rows : List (List (List UInt8))) : Prop where
  mode_eq : s.mode = mode
  field_eq : s.field.reverse = field
  fields_eq : s.fields.reverse = fields
  rows_eq : s.records.reverse.map Record.fields = rows

/-- Inside a record, but not inside quotes: the next line end closes the record. -/
inductive Ready : Mode → Prop where
  | fresh : Ready .fresh
  | plain : Ready .plain
  | closing : Ready .closing

inductive Starts : Mode → Prop where
  | between : Starts .between
  | fresh : Starts .fresh

variable {s : Scanner} {mode : Mode} {field : List UInt8} {fields : List (List UInt8)}
  {rows : List (List (List UInt8))}

theorem stands_comma (stands : Stands s mode field fields rows) (outside : mode ≠ .quoted) :
    Stands (s.step comma) .fresh [] (fields ++ [field]) rows := by
  obtain ⟨m, f, fs, rs, start, here⟩ := s
  obtain ⟨rfl, rfl, rfl, rfl⟩ := stands
  cases m with
  | quoted => exact absurd rfl outside
  | between | fresh | plain | closing =>
    constructor <;> simp [Scanner.step, Scanner.outside, Scanner.endField, comma, quote, isTerminator]

theorem stands_terminator (stands : Stands s mode field fields rows) (ready : Ready mode) {b : UInt8}
    (terminator : isTerminator b) :
    Stands (s.step b) .between [] [] (rows ++ [fields ++ [field]]) := by
  obtain ⟨m, f, fs, rs, start, here⟩ := s
  obtain ⟨rfl, rfl, rfl, rfl⟩ := stands
  have noComma : b ≠ comma := by
    rintro rfl
    cases terminator
  have noQuote : b ≠ quote := by
    rintro rfl
    cases terminator
  cases ready <;> constructor <;>
    simp [Scanner.step, Scanner.outside, Scanner.endRecord, noComma, noQuote, terminator]

theorem stands_blank (stands : Stands s .between field fields rows) {b : UInt8}
    (terminator : isTerminator b) : Stands (s.step b) .between field fields rows := by
  obtain ⟨m, f, fs, rs, start, here⟩ := s
  obtain ⟨rfl, rfl, rfl, rfl⟩ := stands
  constructor <;> simp [Scanner.step, terminator]

theorem stands_ordinary (stands : Stands s mode field fields rows) (outside : mode ≠ .quoted)
    {b : UInt8} (noComma : b ≠ comma) (noQuote : b ≠ quote) (inside : isTerminator b = false) :
    Stands (s.step b) .plain (field ++ [b]) fields rows := by
  obtain ⟨m, f, fs, rs, start, here⟩ := s
  obtain ⟨rfl, rfl, rfl, rfl⟩ := stands
  cases m with
  | quoted => exact absurd rfl outside
  | between | fresh | plain | closing =>
    constructor <;> simp [Scanner.step, Scanner.outside, Scanner.put, noComma, noQuote, inside]

theorem stands_open (stands : Stands s mode field fields rows) (starts : Starts mode) :
    Stands (s.step quote) .quoted field fields rows := by
  obtain ⟨m, f, fs, rs, start, here⟩ := s
  obtain ⟨rfl, rfl, rfl, rfl⟩ := stands
  cases starts <;> constructor <;> simp [Scanner.step, isTerminator, quote]

theorem stands_inside (stands : Stands s .quoted field fields rows) {b : UInt8} (noQuote : b ≠ quote) :
    Stands (s.step b) .quoted (field ++ [b]) fields rows := by
  obtain ⟨m, f, fs, rs, start, here⟩ := s
  obtain ⟨rfl, rfl, rfl, rfl⟩ := stands
  constructor <;> simp [Scanner.step, Scanner.put, noQuote]

theorem stands_kept (stands : Stands s .plain field fields rows) :
    Stands (s.step quote) .plain (field ++ [quote]) fields rows := by
  obtain ⟨m, f, fs, rs, start, here⟩ := s
  obtain ⟨rfl, rfl, rfl, rfl⟩ := stands
  constructor <;> simp [Scanner.step, Scanner.outside, Scanner.put, quote, comma, isTerminator]

theorem stands_close (stands : Stands s .quoted field fields rows) :
    Stands (s.step quote) .closing field fields rows := by
  obtain ⟨m, f, fs, rs, start, here⟩ := s
  obtain ⟨rfl, rfl, rfl, rfl⟩ := stands
  constructor <;> simp [Scanner.step]

theorem stands_double (stands : Stands s .closing field fields rows) :
    Stands (s.step quote) .quoted (field ++ [quote]) fields rows := by
  obtain ⟨m, f, fs, rs, start, here⟩ := s
  obtain ⟨rfl, rfl, rfl, rfl⟩ := stands
  constructor <;> simp [Scanner.step, Scanner.put]

theorem ordinary_bytes {c : Char} (ordinary : isSpecial c = false) :
    ∀ b ∈ String.utf8EncodeChar c, b ≠ comma ∧ b ≠ quote ∧ isTerminator b = false := by
  intro b member
  have other (d : Char) (ascii : d.toNat < 128) (noD : c ≠ d) : b ≠ UInt8.ofNat d.toNat := by
    rintro rfl
    have small : (UInt8.ofNat d.toNat).toNat = d.toNat := Utf8.toNat_byte (by omega)
    have same := Utf8.toNat_of_mem_encodeChar member (by omega)
    exact noD (Char.toNat_inj.mp (by omega))
  simp only [isSpecial, Bool.or_eq_false_iff, beq_eq_false_iff_ne] at ordinary
  obtain ⟨⟨⟨noComma, noQuote⟩, noNewline⟩, noReturn⟩ := ordinary
  refine ⟨other ',' (by decide) noComma, other '"' (by decide) noQuote, ?_⟩
  rw [isTerminator, Bool.or_eq_false_iff, beq_eq_false_iff_ne, beq_eq_false_iff_ne]
  exact ⟨other '\n' (by decide) noNewline, other '\r' (by decide) noReturn⟩

theorem inside_bytes {c : Char} (noQuote : c ≠ '"') : ∀ b ∈ String.utf8EncodeChar c, b ≠ quote := by
  rintro b member rfl
  exact noQuote (Char.toNat_inj.mp (Utf8.toNat_of_mem_encodeChar member (by decide)))

theorem scan_ordinary {bytes : List UInt8} (some_ : bytes ≠ [])
    (ordinary : ∀ b ∈ bytes, b ≠ comma ∧ b ≠ quote ∧ isTerminator b = false)
    (outside : mode ≠ .quoted) (stands : Stands s mode field fields rows) :
    Stands (bytes.foldl Scanner.step s) .plain (field ++ bytes) fields rows := by
  induction bytes generalizing s mode field with
  | nil => contradiction
  | cons b bytes ih =>
    obtain ⟨noComma, noQuote, inside⟩ := ordinary b (by simp)
    have next := stands_ordinary stands outside noComma noQuote inside
    cases bytes with
    | nil => exact next
    | cons b' bytes =>
      have run := ih (by simp) (fun x member => ordinary x (List.mem_cons_of_mem b member))
        (by decide) next
      rwa [List.append_assoc] at run

theorem scan_inside {bytes : List UInt8} (inside : ∀ b ∈ bytes, b ≠ quote)
    (stands : Stands s .quoted field fields rows) :
    Stands (bytes.foldl Scanner.step s) .quoted (field ++ bytes) fields rows := by
  induction bytes generalizing s field with
  | nil => rwa [List.append_nil]
  | cons b bytes ih =>
    have next := stands_inside stands (inside b (by simp))
    have run := ih (fun x member => inside x (List.mem_cons_of_mem b member)) next
    rwa [List.append_assoc] at run

theorem scan_doubled (text : List Char) (stands : Stands s .quoted field fields rows) :
    Stands ((Utf8.encode (doubled text)).foldl Scanner.step s) .quoted (field ++ Utf8.encode text)
      fields rows := by
  induction text generalizing s field with
  | nil => rwa [show Utf8.encode [] = [] from rfl, List.append_nil]
  | cons c text ih =>
    rw [Utf8.encode_cons, ← List.append_assoc, doubled, List.flatMap_cons, Utf8.encode_append,
      List.foldl_append]
    refine ih ?_
    by_cases isQuote : c = '"'
    · subst isQuote
      exact stands_double (stands_close stands)
    · rw [if_neg isQuote, Utf8.encode_cons, show Utf8.encode [] = [] from rfl, List.append_nil]
      exact scan_inside (inside_bytes isQuote) stands

theorem Starts.outside (starts : Starts mode) : mode ≠ .quoted := by
  cases starts <;> decide

theorem Ready.outside (ready : Ready mode) : mode ≠ .quoted := by
  cases ready <;> decide

theorem Ready.begun (ready : Ready mode) : mode ≠ .between := by
  cases ready <;> decide

theorem scan_field {text cell : List Char} (written : FieldText text cell) (starts : Starts mode)
    (stands : Stands s mode [] fields rows) :
    ∃ mode', Stands ((Utf8.encode cell).foldl Scanner.step s) mode' (Utf8.encode text) fields rows ∧
      (Ready mode' ∨ mode' = mode ∧ cell = []) := by
  cases written with
  | quoted =>
    refine ⟨.closing, ?_, .inl .closing⟩
    rw [inQuotes, Utf8.encode_cons, Utf8.encode_append, List.foldl_append, List.foldl_append]
    have run := scan_doubled text (stands_open stands starts)
    rw [List.nil_append] at run
    exact stands_close run
  | plain ordinary =>
    have bytes : ∀ b ∈ Utf8.encode text, b ≠ comma ∧ b ≠ quote ∧ isTerminator b = false := by
      intro b member
      obtain ⟨c, inside, member⟩ := List.mem_flatMap.mp member
      exact ordinary_bytes (ordinary c inside) b member
    cases text with
    | nil => exact ⟨mode, stands, .inr ⟨rfl, rfl⟩⟩
    | cons c text =>
      have some_ : Utf8.encode (c :: text) ≠ [] := by
        intro none_
        rw [Utf8.encode_cons, List.append_eq_nil_iff] at none_
        exact Utf8.encodeChar_ne_nil c none_.1
      exact ⟨.plain, scan_ordinary some_ bytes starts.outside stands, .inl .plain⟩

/-- A line is scanned as the texts of its fields, unless it is blank. -/
theorem scan_cells {texts cells : List (List Char)} (written : List.Forall₂ FieldText texts cells)
    (some_ : cells ≠ []) (starts : Starts mode)
    (content : mode = .fresh ∨ [','].intercalate cells ≠ [])
    (stands : Stands s mode [] fields rows) :
    ∃ mode' front field', Ready mode' ∧ front ++ [field'] = fields ++ texts.map Utf8.encode ∧
      Stands ((Utf8.encode ([','].intercalate cells)).foldl Scanner.step s) mode' field' front
        rows := by
  induction written generalizing s mode fields with
  | nil => exact absurd rfl some_
  | @cons text cell texts cells first others ih =>
    obtain ⟨mode', run, state⟩ := scan_field first starts stands
    cases others with
    | nil =>
      refine ⟨mode', fields, Utf8.encode text, ?_, by simp, ?_⟩
      · rcases state with ready | ⟨rfl, rfl⟩
        · exact ready
        · rcases content with rfl | line
          · exact .fresh
          · exact absurd (by simp) line
      · simpa using run
    | cons second others =>
      have outside : mode' ≠ .quoted := by
        rcases state with ready | ⟨rfl, _⟩
        · exact ready.outside
        · exact starts.outside
      obtain ⟨mode'', front, field', ready, all, rest⟩ :=
        ih (by simp) .fresh (.inl rfl) (stands_comma run outside)
      refine ⟨mode'', front, field', ready, ?_, ?_⟩
      · rw [all, List.map_cons, List.map_cons, List.append_assoc, List.singleton_append,
          List.map_cons]
      · rw [List.intercalate_cons_cons, Utf8.encode_append, Utf8.encode_append, List.foldl_append,
          List.foldl_append]
        exact rest

theorem scan_blank (ends : List LineEnd) (stands : Stands s .between [] [] rows) :
    Stands ((Utf8.encode (ends.flatMap LineEnd.text)).foldl Scanner.step s) .between [] [] rows := by
  induction ends generalizing s with
  | nil => exact stands
  | cons first ends ih =>
    rw [List.flatMap_cons, Utf8.encode_append, List.foldl_append]
    refine ih ?_
    cases first with
    | newline => exact stands_blank stands rfl
    | carriageReturn => exact stands_blank stands rfl
    | both => exact stands_blank (stands_blank stands rfl) rfl

theorem scan_ends (first : LineEnd) (blank : List LineEnd) (ready : Ready mode)
    (stands : Stands s mode field fields rows) :
    Stands ((Utf8.encode ((first :: blank).flatMap LineEnd.text)).foldl Scanner.step s) .between [] []
      (rows ++ [fields ++ [field]]) := by
  rw [List.flatMap_cons, Utf8.encode_append, List.foldl_append]
  refine scan_blank blank ?_
  cases first with
  | newline => exact stands_terminator stands ready rfl
  | carriageReturn => exact stands_terminator stands ready rfl
  | both => exact stands_blank (stands_terminator stands ready rfl) rfl

theorem finish_between (stands : Stands s .between field fields rows) :
    s.finish.map Record.fields = rows := by
  rw [Scanner.finish, stands.mode_eq]
  exact stands.rows_eq

theorem finish_begun (stands : Stands s mode field fields rows) (begun : mode ≠ .between) :
    s.finish.map Record.fields = rows ++ [fields ++ [field]] := by
  obtain ⟨m, f, fs, rs, start, here⟩ := s
  obtain ⟨rfl, rfl, rfl, rfl⟩ := stands
  cases m with
  | between => exact absurd rfl begun
  | fresh | plain | quoted | closing => simp [Scanner.finish, Scanner.endRecord]

theorem scan_lines {lines : List (List Char)} {text : List Char} (written : Lines lines text)
    {table : List (List (List Char))} (cells : List.Forall₂ LineText table lines)
    (content : ∀ line ∈ lines, line ≠ []) (stands : Stands s .between [] [] rows) :
    ((Utf8.encode text).foldl Scanner.step s).finish.map Record.fields =
      rows ++ table.map fun texts => texts.map Utf8.encode := by
  have scanned {s : Scanner} {rows : List (List (List UInt8))} {texts : List (List Char)}
      {line : List Char} (line_text : LineText texts line) (nonblank : line ≠ [])
      (stands : Stands s .between [] [] rows) : ∃ mode front field, Ready mode ∧
        front ++ [field] = texts.map Utf8.encode ∧
        Stands ((Utf8.encode line).foldl Scanner.step s) mode field front rows := by
    obtain ⟨cells, written, rfl⟩ := line_text
    refine scan_cells written ?_ .between (.inr nonblank) stands
    rintro rfl
    exact nonblank rfl
  induction written generalizing s rows table with
  | last line ends =>
    obtain ⟨texts, none_, line_text, done, rfl⟩ := List.forall₂_cons_right_iff.mp cells
    cases List.forall₂_nil_right_iff.mp done
    obtain ⟨mode, front, field, ready, all, run⟩ := scanned line_text (content line (by simp)) stands
    rw [Utf8.encode_append, List.foldl_append]
    cases ends with
    | nil => exact (finish_begun run ready.begun).trans (by simp [all])
    | cons first blank =>
      have closed := finish_between (scan_ends first blank ready run)
      simpa [all] using closed
  | more line first blank later ih =>
    obtain ⟨texts, others, line_text, further, rfl⟩ := List.forall₂_cons_right_iff.mp cells
    obtain ⟨mode, front, field, ready, all, run⟩ := scanned line_text (content line (by simp)) stands
    rw [Utf8.encode_append, Utf8.encode_append, List.foldl_append, List.foldl_append]
    have rest := ih further (fun other member => content other (List.mem_cons_of_mem line member))
      (scan_ends first blank ready run)
    rw [rest, all]
    simp

theorem stands_initial (byte : Nat) : Stands (Scanner.initial byte) .between [] [] [] :=
  ⟨rfl, rfl, rfl, rfl⟩

theorem records_lines {lines : List (List Char)} {text : List Char} (written : Lines lines text)
    {table : List (List (List Char))} (cells : List.Forall₂ LineText table lines)
    (content : ∀ line ∈ lines, line ≠ []) (noMark : ∀ c ∈ text.head?, c.toNat < 128) :
    ∀ mark : Bool, (records ((if mark then byteOrderMark else []) ++ Utf8.encode text)).map
      Record.fields = table.map fun texts => texts.map Utf8.encode := by
  intro mark
  cases mark with
  | true => exact scan_lines written cells content (stands_initial 3)
  | false =>
    have none_ : (Utf8.encode text).take 3 ≠ byteOrderMark := by
      cases text with
      | nil => decide
      | cons c text =>
        have ascii := noMark c rfl
        intro same
        rw [Utf8.encode_cons, Utf8.encodeChar_eq, if_pos ascii, List.singleton_append,
          List.take_succ_cons] at same
        have first := congrArg UInt8.toNat (List.cons.inj same).1
        rw [Utf8.toNat_byte (by omega)] at first
        exact absurd first (Nat.ne_of_lt (Nat.lt_trans ascii (by decide)))
    simp only [Bool.false_eq_true, if_false, List.nil_append, records, none_]
    exact scan_lines written cells content (stands_initial 0)

end TickReplay.Csv
