import TickReplay.Proofs.Csv.Scanning
import TickReplay.Proofs.Decimal.Numeral
import TickReplay.Proofs.Tick.Load

/- Files that are written for ticks, and what they load as. Symbols stand in quotes and are taken as they
   are; numbers may have blanks around them, and every numeral that identifies a value will do. -/
namespace TickReplay.Tick

open Csv (FieldText LineText Lines inQuotes isSpecial byteOrderMark)
open Decimal (Numeral)

/-- A blank that ends no line. -/
def isPadding (c : Char) : Bool := Text.isBlank c && c != '\n' && c != '\r'

def Padded (text cell : List Char) : Prop :=
  ∃ front back, (∀ c ∈ front ++ back, isPadding c) ∧ cell = front ++ (text ++ back)

inductive Cell (tick : Tick) : Field → List Char → Prop where
  | timestamp {text cell : List Char} (integer : Text.IsInt64 text tick.timestamp)
      (padded : Padded text cell) : Cell tick .timestamp cell
  | symbol : Cell tick .symbol (inQuotes tick.symbol.toList)
  | price {numeral : Numeral} {cell : List Char} (identifies : numeral.value = tick.price)
      (padded : Padded numeral.text cell) : Cell tick .price cell
  | volume {numeral : Numeral} {cell : List Char} (identifies : numeral.value = tick.volume)
      (padded : Padded numeral.text cell) : Cell tick .volume cell

def RowText (order : List Field) (tick : Tick) (line : List Char) : Prop :=
  ∃ cells, List.Forall₂ (Cell tick) order cells ∧ line = [','].intercalate cells

def headerText (order : List Field) : List Char :=
  [','].intercalate (order.map fun field => field.name.toList)

/-- The bytes of a file: a header of the four names in some order, and one line a tick. -/
inductive FileText (ticks : List Tick) : List UInt8 → Prop where
  | lines {order : List Field} {rows : List (List Char)} {text : List Char}
      (columns : order.Perm Field.all) (cells : List.Forall₂ (RowText order) ticks rows)
      (written : Lines (headerText order :: rows) text) (mark : Bool) :
      FileText ticks ((if mark then byteOrderMark else []) ++ Utf8.encode text)

def isFigure (c : Char) : Bool :=
  c.isDigit || c == '+' || c == '-' || c == '.' || c == 'e' || c == 'E'

theorem figure_bounds {c : Char} (figure : isFigure c) : 43 ≤ c.toNat ∧ c.toNat ≤ 101 ∧ c ≠ ',' := by
  simp only [isFigure, Bool.or_eq_true, beq_iff_eq] at figure
  rcases figure with ((((digit | rfl) | rfl) | rfl) | rfl) | rfl
  · obtain ⟨least, most⟩ := Json.isDigit_bounds digit
    refine ⟨by omega, by omega, ?_⟩
    rintro rfl
    exact absurd least (by decide)
  all_goals decide

theorem figure_shown {c : Char} (figure : isFigure c) : Text.isBlank c = false := by
  obtain ⟨least, most, _⟩ := figure_bounds figure
  simp only [Text.isBlank, Text.blankRanges, List.any_cons, List.any_nil, Bool.or_false,
    Bool.or_eq_false_iff, Bool.and_eq_false_iff, decide_eq_false_iff_not]
  omega

theorem figure_ordinary {c : Char} (figure : isFigure c) : isSpecial c = false := by
  obtain ⟨least, _, noComma⟩ := figure_bounds figure
  simp only [isSpecial, Bool.or_eq_false_iff, beq_eq_false_iff_ne]
  refine ⟨⟨⟨noComma, ?_⟩, ?_⟩, ?_⟩ <;>
    · rintro rfl
      exact absurd least (by decide)

theorem padding_ordinary {c : Char} (padding : isPadding c) : isSpecial c = false := by
  simp only [isPadding, Bool.and_eq_true, bne_iff_ne] at padding
  obtain ⟨⟨blank, noNewline⟩, noReturn⟩ := padding
  simp only [isSpecial, Bool.or_eq_false_iff, beq_eq_false_iff_ne]
  refine ⟨⟨⟨?_, ?_⟩, noNewline⟩, noReturn⟩ <;>
    · rintro rfl
      exact absurd blank (by decide)

theorem trimLeft_padded {front text : List Char} (blank : ∀ c ∈ front, Text.isBlank c)
    (shown : ∀ c ∈ text.head?, Text.isBlank c = false) :
    Text.trimLeft (front ++ text) = text := by
  rw [Text.trimLeft, List.dropWhile_append_of_pos blank]
  cases text with
  | nil => rfl
  | cons c text => rw [List.dropWhile_cons, if_neg (by simp [shown c rfl])]

theorem trim_padded {text cell : List Char} (padded : Padded text cell) (nonempty : text ≠ [])
    (figures : ∀ c ∈ text, isFigure c) : Text.trim cell = text := by
  obtain ⟨front, back, padding, rfl⟩ := padded
  have blank : ∀ c ∈ front ++ back, Text.isBlank c := by
    intro c member
    exact (Bool.and_eq_true_iff.mp (Bool.and_eq_true_iff.mp (padding c member)).1).1
  have left : Text.trimLeft (front ++ (text ++ back)) = text ++ back := by
    refine trimLeft_padded (fun c member => blank c (List.mem_append_left _ member)) ?_
    intro c head
    rw [List.head?_append_of_ne_nil _ nonempty] at head
    exact figure_shown (figures c (List.mem_of_mem_head? head))
  have right : Text.trimLeft (text ++ back).reverse = text.reverse := by
    rw [List.reverse_append]
    refine trimLeft_padded ?_ ?_
    · intro c member
      exact blank c (List.mem_append_right _ (List.mem_reverse.mp member))
    · intro c head
      exact figure_shown (figures c (List.mem_reverse.mp (List.mem_of_mem_head? head)))
  rw [Text.trim, left, right, List.reverse_reverse]

theorem padded_ordinary {text cell : List Char} (padded : Padded text cell)
    (figures : ∀ c ∈ text, isFigure c) : FieldText cell cell := by
  obtain ⟨front, back, padding, rfl⟩ := padded
  refine .plain fun c member => ?_
  rcases List.mem_append.mp member with inFront | inside
  · exact padding_ordinary (padding c (List.mem_append_left _ inFront))
  rcases List.mem_append.mp inside with inText | inBack
  · exact figure_ordinary (figures c inText)
  · exact padding_ordinary (padding c (List.mem_append_right _ inBack))

theorem isFigure_digit {c : Char} (digit : c.isDigit) : isFigure c := by
  simp [isFigure, digit]

theorem isFigure_sign (sign : Json.Sign) : ∀ c ∈ sign.text, isFigure c := by
  cases sign <;> exact List.all_eq_true.mp rfl

theorem integer_figures {text : List Char} {value : Int64} (integer : Text.IsInt64 text value) :
    text ≠ [] ∧ ∀ c ∈ text, isFigure c := by
  obtain ⟨negative, ds, some_, digits, sign, _⟩ := integer
  have figures : ∀ c ∈ ds, isFigure c := fun c member => isFigure_digit (digits c member)
  cases negative with
  | true =>
    rw [if_pos rfl] at sign
    subst sign
    exact ⟨by simp, List.forall_mem_cons.mpr ⟨by decide, figures⟩⟩
  | false =>
    rw [if_neg (by decide)] at sign
    rcases sign with rfl | rfl
    · exact ⟨some_, figures⟩
    · exact ⟨by simp, List.forall_mem_cons.mpr ⟨by decide, figures⟩⟩

theorem numeral_figures (numeral : Numeral) : ∀ c ∈ numeral.text, isFigure c := by
  have whole : ∀ c ∈ numeral.whole, isFigure c :=
    fun c member => isFigure_digit (numeral.digits c (List.mem_append_left _ member))
  have fraction : ∀ c ∈ Decimal.pointText numeral.fraction, isFigure c := by
    have digits := numeral.digits
    cases given : numeral.fraction with
    | none => nofun
    | some ds =>
      rw [given] at digits
      refine List.forall_mem_cons.mpr ⟨by decide, fun c member => ?_⟩
      exact isFigure_digit (digits c (List.mem_append_right _ member))
  have exponent : ∀ c ∈ Json.exponentPart numeral.exponent, isFigure c := by
    cases numeral.exponent with
    | none => nofun
    | some e =>
      refine List.forall_mem_cons.mpr ⟨?_, fun c member => ?_⟩
      · rcases Bool.or_eq_true_iff.mp e.is_mark with same | same
        · rw [eq_of_beq same]
          decide
        · rw [eq_of_beq same]
          decide
      · rcases List.mem_append.mp member with inSign | inDigits
        · exact isFigure_sign e.sign c inSign
        · exact isFigure_digit (e.digits.digits c inDigits)
  intro c member
  simp only [Numeral.text, Numeral.body, List.mem_append] at member
  rcases member with inSign | inWhole | inFraction | inExponent
  · exact isFigure_sign numeral.sign c inSign
  · exact whole c inWhole
  · exact fraction c inFraction
  · exact exponent c inExponent

def Fits (tick : Tick) : Field → List Char → Prop
  | .timestamp, text => Text.IsInt64 (Text.trim text) tick.timestamp
  | .symbol, text => text = tick.symbol.toList
  | .price, text => Decimal.readLiteral (Text.trim text) = .ok tick.price
  | .volume, text => Decimal.readLiteral (Text.trim text) = .ok tick.volume

theorem numeral_fits {numeral : Numeral} {cell : List Char} (padded : Padded numeral.text cell) :
    FieldText cell cell ∧ Decimal.readLiteral (Text.trim cell) = .ok numeral.value := by
  have figures := numeral_figures numeral
  rw [trim_padded padded numeral.text_ne_nil figures]
  exact ⟨padded_ordinary padded figures, numeral.readLiteral_text⟩

theorem cell_fits {tick : Tick} {field : Field} {cell : List Char} (written : Cell tick field cell) :
    ∃ text, FieldText text cell ∧ Fits tick field text := by
  cases written with
  | timestamp integer padded =>
    obtain ⟨nonempty, figures⟩ := integer_figures integer
    refine ⟨cell, padded_ordinary padded figures, ?_⟩
    rwa [Fits, trim_padded padded nonempty figures]
  | symbol => exact ⟨_, .quoted _, rfl⟩
  | price identifies padded =>
    obtain ⟨plain, reads⟩ := numeral_fits padded
    rw [identifies] at reads
    exact ⟨cell, plain, reads⟩
  | volume identifies padded =>
    obtain ⟨plain, reads⟩ := numeral_fits padded
    rw [identifies] at reads
    exact ⟨cell, plain, reads⟩

theorem row_fits {order : List Field} {tick : Tick} {line : List Char}
    (written : RowText order tick line) :
    ∃ texts, LineText texts line ∧ List.Forall₂ (Fits tick) order texts := by
  obtain ⟨cells, written, rfl⟩ := written
  have texts : ∃ texts, List.Forall₂ FieldText texts cells ∧ List.Forall₂ (Fits tick) order texts := by
    induction written with
    | nil => exact ⟨[], .nil, .nil⟩
    | cons first _ ih =>
      obtain ⟨text, cell, fits⟩ := cell_fits first
      obtain ⟨texts, cells, others⟩ := ih
      exact ⟨text :: texts, .cons cell cells, .cons fits others⟩
  obtain ⟨texts, fields, fits⟩ := texts
  exact ⟨texts, ⟨cells, fields, rfl⟩, fits⟩

theorem name_ordinary (field : Field) : ∀ c ∈ field.name.toList, isSpecial c = false := by
  have ordinary : field.name.toList.all fun c => !isSpecial c := by cases field <;> rfl
  intro c member
  simpa using List.all_eq_true.mp ordinary c member

theorem header_line (order : List Field) :
    LineText (order.map fun field => field.name.toList) (headerText order) := by
  refine ⟨_, ?_, rfl⟩
  induction order with
  | nil => exact .nil
  | cons field order ih => exact .cons (.plain (name_ordinary field)) ih

theorem intercalate_ne_nil {first second : List Char} {cells : List (List Char)} :
    [','].intercalate (first :: second :: cells) ≠ [] := by
  rw [List.intercalate_cons_cons]
  simp

theorem line_ne_nil {order : List Field} (columns : order.Perm Field.all) {cells : List (List Char)}
    (length : cells.length = order.length) : [','].intercalate cells ≠ [] := by
  rw [columns.length_eq] at length
  match cells, length with
  | _ :: _ :: _, _ => exact intercalate_ne_nil

def Columns.ofOrder (order : List Field) : Columns :=
  ⟨order.idxOf .timestamp, order.idxOf .symbol, order.idxOf .price, order.idxOf .volume⟩

theorem ofOrder_of (order : List Field) (field : Field) :
    (Columns.ofOrder order).of field = order.idxOf field := by
  cases field <;> rfl

theorem name_injective {a b : Field} (same : a.name.toList = b.name.toList) : a = b := by
  revert same
  cases a <;> cases b <;> decide

theorem isFirst_name {order : List Field} {field : Field} (member : field ∈ order) :
    IsFirst (order.map fun field => field.name.toList) field.name.toList (order.idxOf field) := by
  constructor
  · rw [List.getElem?_map, List.getElem?_idxOf member, Option.map_some]
  · intro i less same
    rw [List.getElem?_map, Option.map_eq_some_iff] at same
    obtain ⟨other, at_, name⟩ := same
    rw [name_injective name] at at_
    obtain ⟨inside, there⟩ := List.getElem?_eq_some_iff.mp at_
    have before := List.not_of_lt_findIdx (p := fun other => other == field) less
    rw [there] at before
    simp at before

theorem fits_column {order : List Field} {texts : List (List Char)} {tick : Tick} {field : Field}
    (fits : List.Forall₂ (Fits tick) order texts) (member : field ∈ order) :
    ∃ text, texts[order.idxOf field]? = some text ∧ Fits tick field text := by
  induction fits with
  | nil => cases member
  | @cons first text order texts here others ih =>
    by_cases same : first = field
    · subst same
      exact ⟨text, by simp, here⟩
    · obtain ⟨found, at_, fits⟩ := ih ((List.mem_cons.mp member).resolve_left (Ne.symm same))
      exact ⟨found, by rw [List.idxOf_cons_ne _ same]; simpa using at_, fits⟩

theorem holds_column {order : List Field} (columns : order.Perm Field.all)
    {texts : List (List Char)} {tick : Tick} (fits : List.Forall₂ (Fits tick) order texts)
    (symbol : tick.symbol ≠ "") (finite : tick.price.isFinite ∧ tick.volume.isFinite) (field : Field) :
    Holds (Columns.ofOrder order) texts tick field := by
  have all : field ∈ Field.all := by cases field <;> decide
  obtain ⟨text, at_, here⟩ := fits_column fits (columns.mem_iff.mpr all)
  rw [← ofOrder_of] at at_
  cases field with
  | timestamp => exact ⟨text, at_, here⟩
  | symbol => exact ⟨at_.trans (congrArg some here), symbol⟩
  | price => exact ⟨text, at_, here, finite.1⟩
  | volume => exact ⟨text, at_, here, finite.2⟩

theorem ofRows_written {columns : Columns} {records : List Csv.Record} {ticks : List Tick}
    (reads : List.Forall₂ (fun record tick => ∀ row, readRow columns row record = .ok tick) records
      ticks) (row : Nat) : ofRows columns row records = .ok ticks := by
  induction reads generalizing row with
  | nil => rfl
  | cons first _ ih =>
    rw [ofRows_cons, first row, ih (row + 1)]
    rfl

theorem rows_fit {order : List Field} {ticks : List Tick} {rows : List (List Char)}
    (written : List.Forall₂ (RowText order) ticks rows) :
    ∃ table, List.Forall₂ LineText table rows ∧
      List.Forall₂ (fun tick texts => List.Forall₂ (Fits tick) order texts) ticks table := by
  induction written with
  | nil => exact ⟨[], .nil, .nil⟩
  | cons first _ ih =>
    obtain ⟨texts, line, fits⟩ := row_fits first
    obtain ⟨table, lines, others⟩ := ih
    exact ⟨texts :: table, .cons line lines, .cons fits others⟩

theorem row_ne_nil {order : List Field} (columns : order.Perm Field.all) {ticks : List Tick}
    {rows : List (List Char)} (written : List.Forall₂ (RowText order) ticks rows) :
    ∀ line ∈ rows, line ≠ [] := by
  induction written with
  | nil => nofun
  | cons first _ ih =>
    obtain ⟨cells, cells_written, rfl⟩ := first
    exact List.forall_mem_cons.mpr ⟨line_ne_nil columns cells_written.length_eq.symm, ih⟩

theorem readRow_written {order : List Field} (columns : order.Perm Field.all) {ticks : List Tick}
    (symbols : ∀ tick ∈ ticks, tick.symbol ≠ "")
    (finite : ∀ tick ∈ ticks, tick.price.isFinite ∧ tick.volume.isFinite)
    {table : List (List (List Char))}
    (fits : List.Forall₂ (fun tick texts => List.Forall₂ (Fits tick) order texts) ticks table)
    {records : List Csv.Record}
    (scanned : records.map Csv.Record.fields = table.map fun texts => texts.map Utf8.encode) :
    List.Forall₂ (fun record tick => ∀ row, readRow (Columns.ofOrder order) row record = .ok tick)
      records ticks := by
  induction fits generalizing records with
  | nil =>
    cases List.map_eq_nil_iff.mp scanned
    exact .nil
  | @cons tick texts ticks table first _ ih =>
    obtain ⟨record, records, rfl, same, others⟩ := List.map_eq_cons_iff.mp scanned
    refine .cons (fun row => (readRow_iff _ _ _ _).mpr ?_) (ih ?_ ?_ others)
    · exact .tick same.symm
        (holds_column columns first (symbols tick (by simp)) (finite tick (by simp)))
    · exact fun other member => symbols other (List.mem_cons_of_mem tick member)
    · exact fun other member => finite other (List.mem_cons_of_mem tick member)

theorem header_lead {order : List Field} (columns : order.Perm Field.all) :
    ∃ c cs, headerText order = c :: cs ∧ c.toNat < 128 := by
  have length := columns.length_eq
  match order, length with
  | field :: second :: more, _ =>
    rw [headerText, List.map_cons, List.map_cons, List.intercalate_cons_cons]
    cases field <;> exact ⟨_, _, rfl, by decide⟩

theorem lines_lead {line : List Char} {lines : List (List Char)} {text : List Char}
    (written : Lines (line :: lines) text) : ∃ rest, text = line ++ rest := by
  cases written with
  | last => exact ⟨_, rfl⟩
  | more => exact ⟨_, rfl⟩

/-- Every file that is written for ticks loads as exactly those ticks, in their order: the order of the
    columns, the line ends, blank lines, padding and a byte order mark make no difference. -/
theorem load_written {ticks : List Tick} {bytes : List UInt8} {find : Lookup} {path : String}
    (symbols : ∀ tick ∈ ticks, tick.symbol ≠ "")
    (finite : ∀ tick ∈ ticks, tick.price.isFinite ∧ tick.volume.isFinite)
    (written : FileText ticks bytes) (there : find path = .ok (.file bytes)) :
    load find path = .ok ticks := by
  obtain ⟨columns, cells, written, mark⟩ := written
  rename_i order rows text
  obtain ⟨table, lines, fits⟩ := rows_fit cells
  have content : ∀ line ∈ headerText order :: rows, line ≠ [] := by
    refine List.forall_mem_cons.mpr ⟨?_, row_ne_nil columns cells⟩
    exact line_ne_nil columns (List.length_map _)
  have noMark : ∀ c ∈ text.head?, c.toNat < 128 := by
    obtain ⟨rest, rfl⟩ := lines_lead written
    obtain ⟨c, cs, front, ascii⟩ := header_lead columns
    rw [front]
    rintro d ⟨⟩
    exact ascii
  have scanned := Csv.records_lines written (.cons (header_line order) lines) content noMark mark
  obtain ⟨header, records, split, names, rest⟩ := List.map_eq_cons_iff.mp scanned
  have read := ofRows_written (readRow_written columns symbols finite fits rest) 1
  have header_ok : decodeRecord 0 header = .ok (order.map fun field => field.name.toList) :=
    (decodeRecord_ok_iff 0 header _).mpr names.symm
  have columns_ok : Columns.ofHeader (order.map fun field => field.name.toList) =
      .ok (Columns.ofOrder order) := by
    refine (ofHeader_ok_iff _ _).mpr fun field => ?_
    have all : field ∈ Field.all := by cases field <;> decide
    rw [ofOrder_of]
    exact isFirst_name (columns.mem_iff.mpr all)
  simp only [load, there, ofBytes, split, ofRecords, header_ok, columns_ok, bind, Except.bind, read]

/-- Minus zero and the least magnitude, a symbol with all that needs quotes, a blank line, padding, a mark
    in front and no line end behind the last row. -/
theorem load_written_quoted :
    let ticks : List Tick :=
      [⟨-5, " A,\"\r\n", .zero true, .ofCode false 1⟩, ⟨7, "日本", .ofCode false 0x3fb999999999999a,
        .ofCode false 0x4014000000000000⟩]
    let first := "\u00a0-5\t,\" A,\"\"\r\n\",-0,5e-324"
    let second := "7,\"日本\",0.1,\u3000+5."
    let text := "timestamp_ms,symbol,price,volume\r\n\n" ++ first ++ "\r" ++ second
    let bytes := byteOrderMark ++ Utf8.encode text.toList
    let find : Lookup := fun _ => .ok (.file bytes)
    (∀ tick ∈ ticks, tick.symbol ≠ "") ∧
      (∀ tick ∈ ticks, tick.price.isFinite ∧ tick.volume.isFinite) ∧
      FileText ticks bytes ∧ load find "ticks.csv" = .ok ticks := by
  intro ticks first second text bytes find
  have symbols : ∀ tick ∈ ticks, tick.symbol ≠ "" := by decide
  have finite : ∀ tick ∈ ticks, tick.price.isFinite ∧ tick.volume.isFinite := by decide
  have bare (cell : List Char) : Padded cell cell := ⟨[], [], nofun, by simp⟩
  let zero : Numeral := ⟨.minus, ['0'], none, none, List.all_eq_true.mp rfl, by decide, nofun⟩
  let least : Numeral := ⟨.absent, ['5'], none,
    some ⟨'e', rfl, .minus, ['3', '2', '4'], by decide, List.all_eq_true.mp rfl⟩,
    List.all_eq_true.mp rfl, by decide, by rintro e ⟨⟩; decide⟩
  let tenth : Numeral := ⟨.absent, ['0'], some ['1'], none, List.all_eq_true.mp rfl, by decide, nofun⟩
  let five : Numeral := ⟨.plus, ['5'], some [], none, List.all_eq_true.mp rfl, by decide, nofun⟩
  have early : Text.IsInt64 ['-', '5'] (-5) :=
    ⟨true, ['5'], by decide, List.all_eq_true.mp rfl, rfl, rfl⟩
  have late : Text.IsInt64 ['7'] 7 := ⟨false, ['7'], by decide, List.all_eq_true.mp rfl, .inl rfl, rfl⟩
  have front : Padded ['-', '5'] "\u00a0-5\t".toList :=
    ⟨['\u00a0'], ['\t'], List.all_eq_true.mp rfl, rfl⟩
  have back : Padded five.text "\u3000+5.".toList := ⟨['\u3000'], [], List.all_eq_true.mp rfl, rfl⟩
  have row : RowText Field.all ticks[0] first.toList := by
    refine ⟨["\u00a0-5\t".toList, inQuotes ticks[0].symbol.toList, zero.text, least.text], ?_,
      by decide⟩
    exact .cons (.timestamp early front) (.cons .symbol (.cons (.price (by decide +kernel) (bare _))
      (.cons (.volume (by decide +kernel) (bare _)) .nil)))
  have row' : RowText Field.all ticks[1] second.toList := by
    refine ⟨[['7'], inQuotes ticks[1].symbol.toList, tenth.text, "\u3000+5.".toList], ?_,
      by decide⟩
    exact .cons (.timestamp late (bare _)) (.cons .symbol (.cons (.price (by decide +kernel) (bare _))
      (.cons (.volume (by decide +kernel) back) .nil)))
  have lines : Lines [headerText Field.all, first.toList, second.toList] text.toList := by
    have spelled : text.toList = headerText Field.all ++
        ([.both, .newline].flatMap Csv.LineEnd.text ++ (first.toList ++
          ([.carriageReturn].flatMap Csv.LineEnd.text ++
            (second.toList ++ [].flatMap Csv.LineEnd.text)))) := by
      decide +kernel
    rw [spelled]
    exact .more _ .both [.newline] (.more _ .carriageReturn [] (.last _ []))
  have written : FileText ticks bytes := .lines (.refl _) (.cons row (.cons row' .nil)) lines true
  exact ⟨symbols, finite, written, load_written symbols finite written rfl⟩

end TickReplay.Tick
