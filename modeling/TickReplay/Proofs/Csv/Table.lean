import TickReplay.Proofs.Csv.Scanning
import TickReplay.Proofs.Tick.Load

/- The records of a text as texts. Where a text leads the scanner, and which records it closes on its way,
   hangs on the record that has begun and on nothing that was read before. -/
namespace TickReplay.Csv

def texts (records : List Record) : List (List (List Char)) :=
  records.map fun record => record.decode.toOption.getD []

def table (text : List Char) : List (List (List Char)) := texts (records (Utf8.encode text))

/-- The records of a text in which a byte order mark is a character like others. -/
def bareTable (text : List Char) : List (List (List Char)) := texts (scanFrom 0 (Utf8.encode text))

structure Progress where
  mode : Mode
  fields : List (List Char)
  field : List Char
  clean : mode = .between → fields = [] ∧ field = []

def Progress.between : Progress := ⟨.between, [], [], fun _ => ⟨rfl, rfl⟩⟩

def Progress.Outside (p : Progress) : Prop := p.mode ≠ .quoted

def Progress.pending (p : Progress) : List (List (List Char)) :=
  if p.mode = .between then [] else [p.fields ++ [p.field]]

theorem between_outside : Progress.between.Outside := nofun

theorem between_pending : Progress.between.pending = [] := rfl

def Scanner.At (s : Scanner) (rows : List (List (List Char))) (p : Progress) : Prop :=
  Stands s p.mode (Utf8.encode p.field) (p.fields.map Utf8.encode)
    (rows.map fun row => row.map Utf8.encode)

/-- A text leads from one place of a record to another and closes some records on its way. -/
def Leads (text : List Char) (p q : Progress) (closed : List (List (List Char))) : Prop :=
  ∀ (s : Scanner) (rows : List (List (List Char))), s.At rows p →
    ((Utf8.encode text).foldl Scanner.step s).At (rows ++ closed) q

theorem leads_nil (p : Progress) : Leads [] p p [] := by
  intro s rows here
  rw [List.append_nil]
  exact here

theorem leads_append {a b : List Char} {p q r : Progress} {closed later : List (List (List Char))}
    (first : Leads a p q closed) (second : Leads b q r later) :
    Leads (a ++ b) p r (closed ++ later) := by
  intro s rows here
  rw [Utf8.encode_append, List.foldl_append, ← List.append_assoc]
  exact second _ _ (first s rows here)

theorem encode_single (c : Char) : Utf8.encode [c] = String.utf8EncodeChar c := by
  rw [Utf8.encode_cons, show Utf8.encode [] = [] from rfl, List.append_nil]

theorem encode_snoc (field : List Char) (c : Char) :
    Utf8.encode (field ++ [c]) = Utf8.encode field ++ String.utf8EncodeChar c := by
  rw [Utf8.encode_append, encode_single]

theorem eq_between {p : Progress} (mode : p.mode = .between) : p = .between := by
  obtain ⟨m, fields, field, clean⟩ := p
  obtain ⟨rfl, rfl⟩ := clean mode
  cases mode
  rfl

theorem ready_of_outside {p : Progress} (outside : p.Outside) (begun : p.mode ≠ .between) :
    Ready p.mode := by
  obtain ⟨m, fields, field, clean⟩ := p
  cases m with
  | between => exact absurd rfl begun
  | quoted => exact absurd rfl outside
  | fresh => exact .fresh
  | plain => exact .plain
  | closing => exact .closing

theorem leads_lineEnd {p : Progress} (outside : p.Outside) {c : Char} (ends : c = '\n' ∨ c = '\r') :
    Leads [c] p .between p.pending := by
  intro s rows here
  obtain ⟨b, single, terminator⟩ : ∃ b, Utf8.encode [c] = [b] ∧ isTerminator b := by
    rcases ends with rfl | rfl
    · exact ⟨10, by decide, by decide⟩
    · exact ⟨13, by decide, by decide⟩
  rw [single, List.foldl_cons, List.foldl_nil]
  by_cases between : p.mode = .between
  · rw [Progress.pending, if_pos between, List.append_nil]
    rw [eq_between between] at here
    exact stands_blank here terminator
  · have closes := stands_terminator here (ready_of_outside outside between) terminator
    rw [Progress.pending, if_neg between, Scanner.At, List.map_append, List.map_singleton,
      List.map_append, List.map_singleton]
    exact closes

theorem leads_inside {p : Progress} (inside : p.mode = .quoted) {c : Char} (noQuote : c ≠ '"') :
    ∃ q, Leads [c] p q [] := by
  refine ⟨⟨.quoted, p.fields, p.field ++ [c], nofun⟩, ?_⟩
  intro s rows here
  rw [Scanner.At, inside] at here
  rw [List.append_nil, Scanner.At, encode_snoc, encode_single]
  exact scan_inside (inside_bytes noQuote) here

theorem leads_on {p : Progress} (outside : p.Outside) {c : Char} (noQuote : c ≠ '"')
    (noEnd : ¬(c = '\n' ∨ c = '\r')) : ∃ q, Leads [c] p q [] ∧ q.Outside := by
  by_cases comma_ : c = ','
  · refine ⟨⟨.fresh, p.fields ++ [p.field], [], nofun⟩, ?_, nofun⟩
    intro s rows here
    subst comma_
    rw [List.append_nil, Scanner.At, List.map_append]
    exact stands_comma here outside
  · refine ⟨⟨.plain, p.fields, p.field ++ [c], nofun⟩, ?_, nofun⟩
    intro s rows here
    have ordinary : isSpecial c = false := by
      simp only [isSpecial, Bool.or_eq_false_iff, beq_eq_false_iff_ne]
      exact ⟨⟨⟨comma_, noQuote⟩, fun same => noEnd (.inl same)⟩, fun same => noEnd (.inr same)⟩
    rw [List.append_nil, Scanner.At, encode_snoc, encode_single]
    exact scan_ordinary (Utf8.encodeChar_ne_nil c) (ordinary_bytes ordinary) outside here

theorem leads_quote (p : Progress) : ∃ q, Leads ['"'] p q [] := by
  obtain ⟨m, fields, field, clean⟩ := p
  have closed (q : Progress) (step : ∀ s rows, Scanner.At s rows ⟨m, fields, field, clean⟩ →
      (s.step quote).At rows q) : Leads ['"'] ⟨m, fields, field, clean⟩ q [] := by
    intro s rows here
    rw [List.append_nil]
    exact step s rows here
  have doubled : Utf8.encode (field ++ ['"']) = Utf8.encode field ++ [quote] := encode_snoc field '"'
  cases m with
  | between =>
    exact ⟨⟨.quoted, fields, field, nofun⟩, closed _ fun s rows here => stands_open here .between⟩
  | fresh =>
    exact ⟨⟨.quoted, fields, field, nofun⟩, closed _ fun s rows here => stands_open here .fresh⟩
  | plain =>
    refine ⟨⟨.plain, fields, field ++ ['"'], nofun⟩, closed _ fun s rows here => ?_⟩
    rw [Scanner.At, doubled]
    exact stands_kept here
  | quoted =>
    exact ⟨⟨.closing, fields, field, nofun⟩, closed _ fun s rows here => stands_close here⟩
  | closing =>
    refine ⟨⟨.quoted, fields, field ++ ['"'], nofun⟩, closed _ fun s rows here => ?_⟩
    rw [Scanner.At, doubled]
    exact stands_double here

theorem leads_char (p : Progress) (c : Char) :
    ∃ q closed, Leads [c] p q closed ∧ (c ≠ '"' → p.Outside → q.Outside) := by
  by_cases isQuote : c = '"'
  · obtain ⟨q, leads⟩ := leads_quote p
    rw [isQuote]
    exact ⟨q, [], leads, fun other => absurd rfl other⟩
  · by_cases inside : p.mode = .quoted
    · obtain ⟨q, leads⟩ := leads_inside inside isQuote
      exact ⟨q, [], leads, fun _ outside => absurd inside outside⟩
    · by_cases ends : c = '\n' ∨ c = '\r'
      · exact ⟨.between, p.pending, leads_lineEnd inside ends, nofun⟩
      · obtain ⟨q, leads, outside⟩ := leads_on inside isQuote ends
        exact ⟨q, [], leads, fun _ _ => outside⟩

/-- Every text leads somewhere, and a text without a quote does not lead into quotes. -/
theorem leads_text (p : Progress) (text : List Char) :
    ∃ q closed, Leads text p q closed ∧ ('"' ∉ text → p.Outside → q.Outside) := by
  induction text generalizing p with
  | nil => exact ⟨p, [], leads_nil p, fun _ outside => outside⟩
  | cons c text ih =>
    obtain ⟨q, closed, first, stays⟩ := leads_char p c
    obtain ⟨r, later, rest, stays'⟩ := ih q
    refine ⟨r, closed ++ later, leads_append first rest, ?_⟩
    intro noQuote outside
    rw [List.mem_cons, not_or] at noQuote
    exact stays' noQuote.2 (stays (Ne.symm noQuote.1) outside)

theorem at_initial (byte : Nat) : (Scanner.initial byte).At [] .between := stands_initial byte

theorem finish_at {s : Scanner} {rows : List (List (List Char))} {p : Progress} (here : s.At rows p) :
    s.finish.map Record.fields = (rows ++ p.pending).map fun row => row.map Utf8.encode := by
  rw [Progress.pending]
  by_cases between : p.mode = .between
  · rw [if_pos between, List.append_nil]
    rw [eq_between between] at here
    exact finish_between here
  · rw [if_neg between, finish_begun here between]
    simp

theorem texts_eq {records : List Record} {rows : List (List (List Char))}
    (fields : records.map Record.fields = rows.map fun row => row.map Utf8.encode) :
    texts records = rows := by
  induction rows generalizing records with
  | nil =>
    rw [List.map_nil, List.map_eq_nil_iff] at fields
    rw [fields]
    rfl
  | cons row rows ih =>
    obtain ⟨record, more, rfl, same, others⟩ := List.map_eq_cons_iff.mp fields
    have decoded : record.decode = .ok row := (decode_ok_iff record row).mpr same.symm
    have rest := ih others
    rw [texts] at rest
    rw [texts, List.map_cons, rest, decoded]
    rfl

theorem bareTable_eq {text : List Char} {q : Progress} {closed : List (List (List Char))}
    (leads : Leads text .between q closed) : bareTable text = closed ++ q.pending :=
  texts_eq (finish_at (leads _ [] (at_initial 0)))

def mark : Char := '\uFEFF'

def body : List Char → List Char
  | [] => []
  | c :: text => if c = mark then text else c :: text

/-- No other text begins with the bytes of the mark. -/
theorem marked_iff (text : List Char) :
    (Utf8.encode text).take 3 = byteOrderMark ↔ text.head? = some mark := by
  cases text with
  | nil => decide
  | cons c text =>
    rw [List.head?_cons, Option.some.injEq]
    constructor
    · intro begins
      obtain ⟨a, tail, written⟩ := List.exists_cons_of_ne_nil (Utf8.encodeChar_ne_nil c)
      have read := Utf8.first_of_encodeChar written (Utf8.encode text)
      have split := (List.take_append_drop 3 (Utf8.encode (c :: text))).symm
      rw [Utf8.encode_cons, written, List.cons_append] at split begins
      rw [begins] at split
      obtain ⟨rfl, same⟩ := List.cons.inj split
      rw [same] at read
      exact (Prod.mk.inj (Except.ok.inj read)).1.symm
    · rintro rfl
      rw [Utf8.encode_cons]
      rfl

def scan (bytes : List UInt8) : Scanner :=
  if bytes.take 3 = byteOrderMark then (bytes.drop 3).foldl Scanner.step (.initial 3)
  else bytes.foldl Scanner.step (.initial 0)

theorem records_eq (bytes : List UInt8) : records bytes = (scan bytes).finish := by
  unfold records scan scanFrom
  split <;> rfl

theorem scan_body (text : List Char) :
    ∃ byte, scan (Utf8.encode text) =
      (Utf8.encode (body text)).foldl Scanner.step (.initial byte) := by
  rw [scan]
  by_cases marked : text.head? = some mark
  · rw [if_pos ((marked_iff text).mpr marked)]
    obtain ⟨rest, rfl⟩ := List.head?_eq_some_iff.mp marked
    refine ⟨3, ?_⟩
    rw [body, if_pos rfl, Utf8.encode_cons]
    rfl
  · rw [if_neg (mt (marked_iff text).mp marked)]
    refine ⟨0, ?_⟩
    cases text with
    | nil => rfl
    | cons c text => rw [body, if_neg (by simpa using marked)]

theorem scan_at {text : List Char} {q : Progress} {closed : List (List (List Char))}
    (leads : Leads (body text) .between q closed) : (scan (Utf8.encode text)).At closed q := by
  obtain ⟨byte, run⟩ := scan_body text
  rw [run]
  exact leads _ [] (at_initial byte)

theorem fields_of_leads {text : List Char} {q : Progress} {closed : List (List (List Char))}
    (leads : Leads (body text) .between q closed) :
    (records (Utf8.encode text)).map Record.fields =
      (closed ++ q.pending).map fun row => row.map Utf8.encode := by
  rw [records_eq]
  exact finish_at (scan_at leads)

theorem table_eq {text : List Char} {q : Progress} {closed : List (List (List Char))}
    (leads : Leads (body text) .between q closed) : table text = closed ++ q.pending :=
  texts_eq (fields_of_leads leads)

theorem table_complete {text : List Char} {closed : List (List (List Char))}
    (leads : Leads (body text) .between .between closed) : table text = closed := by
  rw [table_eq leads, between_pending, List.append_nil]

theorem fields_table (text : List Char) :
    (records (Utf8.encode text)).map Record.fields =
      (table text).map fun row => row.map Utf8.encode := by
  obtain ⟨q, closed, leads, _⟩ := leads_text .between (body text)
  rw [table_eq leads]
  exact fields_of_leads leads

theorem table_body (text : List Char) : table text = bareTable (body text) := by
  obtain ⟨q, closed, leads, _⟩ := leads_text .between (body text)
  rw [table_eq leads, bareTable_eq leads]

theorem body_append {front : List Char} (some_ : front ≠ []) (back : List Char) :
    body (front ++ back) = body front ++ back := by
  obtain ⟨c, rest, rfl⟩ := List.exists_cons_of_ne_nil some_
  rw [List.cons_append, body, body]
  split
  · rfl
  · rfl

/-- A text that ends with a line end outside quotes. -/
def EndsLine (text : List Char) : Prop :=
  ∃ front c, text = front ++ [c] ∧ (c = '\n' ∨ c = '\r') ∧
    (scan (Utf8.encode front)).mode ≠ .quoted

theorem EndsLine.ne_nil {text : List Char} (ends : EndsLine text) : text ≠ [] := by
  obtain ⟨front, c, rfl, _⟩ := ends
  simp

theorem EndsLine.leads {text : List Char} (ends : EndsLine text) :
    ∃ closed, Leads (body text) .between .between closed := by
  obtain ⟨front, c, rfl, lineEnd, outside⟩ := ends
  obtain ⟨q, closed, first, _⟩ := leads_text .between (body front)
  have place := (scan_at first).mode_eq
  rw [place] at outside
  have whole : body (front ++ [c]) = body front ++ [c] := by
    cases front with
    | nil => rcases lineEnd with rfl | rfl <;> rfl
    | cons d front => exact body_append (by simp) [c]
  rw [whole]
  exact ⟨_, leads_append first (leads_lineEnd outside lineEnd)⟩

/-- A text behind complete lines adds its records to theirs, and the same ones behind all of them. -/
theorem table_append {front middle : List Char} (ends : EndsLine front)
    (ends' : EndsLine (front ++ middle)) (back : List Char) :
    ∃ rows more, table (front ++ middle) = table front ++ rows ∧
      table (front ++ back) = table front ++ more ∧
      table (front ++ middle ++ back) = table front ++ (rows ++ more) := by
  obtain ⟨closed, first⟩ := ends.leads
  obtain ⟨q, rows, second, _⟩ := leads_text .between middle
  obtain ⟨r, more, third, _⟩ := leads_text .between back
  obtain ⟨all, both⟩ := ends'.leads
  have split (text : List Char) : body (front ++ text) = body front ++ text :=
    body_append ends.ne_nil text
  have joined : Leads (body (front ++ middle)) .between q (closed ++ rows) := by
    rw [split]
    exact leads_append first second
  have between : q = .between := by
    refine eq_between ?_
    rw [← (scan_at joined).mode_eq]
    exact (scan_at both).mode_eq
  subst between
  have behind : Leads (body (front ++ back)) .between r (closed ++ more) := by
    rw [split]
    exact leads_append first third
  have last : Leads (body (front ++ middle ++ back)) .between r (closed ++ (rows ++ more)) := by
    rw [List.append_assoc, split]
    exact leads_append first (leads_append second third)
  refine ⟨rows, more ++ r.pending, ?_, ?_, ?_⟩
  · rw [table_complete joined, table_complete first]
  · rw [table_eq behind, table_complete first, List.append_assoc]
  · rw [table_eq last, table_complete first, List.append_assoc, List.append_assoc]

end TickReplay.Csv
