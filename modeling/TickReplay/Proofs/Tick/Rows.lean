import TickReplay.Proofs.Csv.Table

/- Loading told over texts. A file with some text in it loads as the table of the text. The rows of a table
   are read one behind the other, each by itself; only the place of a bad row hangs on the rows before it. -/
namespace TickReplay.Tick

def ofTexts (columns : Columns) (row : Nat) : List (List (List Char)) → Except LoadError (List Tick)
  | [] => .ok []
  | texts :: more => do
    let tick ← ofRow columns row texts
    return tick :: (← ofTexts columns (row + 1) more)

def ofTable (table : List (List (List Char))) : Except LoadError (List Tick) := do
  let columns ← Columns.ofHeader (table.headD [])
  ofTexts columns 1 table.tail

theorem ofRows_texts (columns : Columns) (row : Nat) {records : List Csv.Record}
    {rows : List (List (List Char))}
    (fields : records.map Csv.Record.fields = rows.map fun texts => texts.map Utf8.encode) :
    ofRows columns row records = ofTexts columns row rows := by
  induction rows generalizing row records with
  | nil =>
    rw [List.map_nil, List.map_eq_nil_iff] at fields
    rw [fields]
    rfl
  | cons texts rows ih =>
    obtain ⟨record, more, rfl, same, others⟩ := List.map_eq_cons_iff.mp fields
    have decoded := (decodeRecord_ok_iff row record texts).mpr same.symm
    rw [ofRows, ofTexts, decoded, ih (row + 1) others]
    rfl

theorem ofBytes_encode (text : List Char) :
    ofBytes (Utf8.encode text) = ofTable (Csv.table text) := by
  have fields := Csv.fields_table text
  rw [ofBytes_eq, readHeader, dataRows]
  cases rows : Csv.table text with
  | nil =>
    rw [rows, List.map_nil, List.map_eq_nil_iff] at fields
    rw [fields]
    rfl
  | cons header rest =>
    rw [rows] at fields
    obtain ⟨first, records, split, same, others⟩ := List.map_eq_cons_iff.mp fields
    have decoded := (decodeRecord_ok_iff 0 first header).mpr same.symm
    rw [split]
    simp only [decoded, List.tail_cons, ofRows_texts _ _ others]
    rfl

theorem load_text {find : Lookup} {path : String} {text : List Char}
    (file : find path = .ok (.file (Utf8.encode text))) :
    load find path = ofTable (Csv.table text) := by
  rw [load, file]
  exact ofBytes_encode text

theorem ofHeader_of_names {header : List (List Char)}
    (names : ∀ field : Field, field.name.toList ∈ header) :
    ∃ columns, Columns.ofHeader header = .ok columns := by
  cases read : Columns.ofHeader header with
  | ok columns => exact ⟨columns, rfl⟩
  | error cause =>
    obtain ⟨field, ⟨_, _, _, _, absent⟩, _⟩ := (ofHeader_error_iff header cause).mp read
    exact absurd (names field) absent

theorem ofRow_anywhere (columns : Columns) (texts : List (List Char)) :
    (∃ tick, ∀ row, ofRow columns row texts = .ok tick) ∨
      ∃ field value, ∀ row, ofRow columns row texts = .error (.malformed row field value) := by
  cases read : ofRow columns 0 texts with
  | ok tick =>
    refine .inl ⟨tick, ?_⟩
    intro row
    rw [ofRow_ok_iff] at read ⊢
    exact read
  | error cause =>
    obtain ⟨field, first, _⟩ := (ofRow_error_iff columns 0 texts cause).mp read
    refine .inr ⟨field, String.ofList (texts[columns.of field]?.getD []), ?_⟩
    intro row
    exact (ofRow_error_iff columns row texts _).mpr ⟨field, first, rfl⟩

theorem ofTexts_anywhere (columns : Columns) (rows : List (List (List Char))) :
    (∃ ticks, ticks.length = rows.length ∧ ∀ row, ofTexts columns row rows = .ok ticks) ∨
      ∃ i field value, ∀ row,
        ofTexts columns row rows = .error (.malformed (row + i) field value) := by
  induction rows with
  | nil => exact .inl ⟨[], rfl, fun _ => rfl⟩
  | cons texts rows ih =>
    rcases ofRow_anywhere columns texts with ⟨tick, read⟩ | ⟨field, value, refused⟩
    · rcases ih with ⟨ticks, lengths, rest⟩ | ⟨i, field, value, rest⟩
      · refine .inl ⟨tick :: ticks, by simp [lengths], ?_⟩
        intro row
        rw [ofTexts, read, rest]
        rfl
      · refine .inr ⟨i + 1, field, value, ?_⟩
        intro row
        rw [ofTexts, read, rest, Nat.add_assoc, Nat.add_comm 1]
        rfl
    · refine .inr ⟨0, field, value, ?_⟩
      intro row
      rw [ofTexts, refused]
      rfl

theorem ofTable_named {table : List (List (List Char))}
    (names : ∀ field : Field, field.name.toList ∈ table.headD []) :
    (∃ ticks, ofTable table = .ok ticks) ∨
      ∃ row field value, ofTable table = .error (.malformed row field value) := by
  obtain ⟨columns, read⟩ := ofHeader_of_names names
  rw [ofTable, read]
  rcases ofTexts_anywhere columns table.tail with ⟨ticks, _, good⟩ | ⟨i, field, value, bad⟩
  · exact .inl ⟨ticks, good 1⟩
  · exact .inr ⟨1 + i, field, value, bad 1⟩

inductive TextLoad : Except LoadError (List Tick) → Prop where
  | loaded (ticks : List Tick) : TextLoad (.ok ticks)
  | missingColumn (field : Field) : TextLoad (.error (.missingColumn field))
  | malformed (row : Nat) (field : Field) (value : String) :
      TextLoad (.error (.malformed row field value))

theorem ofTable_textLoad (table : List (List (List Char))) : TextLoad (ofTable table) := by
  by_cases names : ∀ field : Field, field.name.toList ∈ table.headD []
  · rcases ofTable_named names with ⟨ticks, read⟩ | ⟨row, field, value, read⟩
    · rw [read]
      exact .loaded ticks
    · rw [read]
      exact .malformed row field value
  · cases read : Columns.ofHeader (table.headD []) with
    | ok columns =>
      have first := (ofHeader_ok_iff _ columns).mp read
      exact absurd (fun field => List.mem_of_getElem? (first field).1) names
    | error cause =>
      obtain ⟨field, _, rfl⟩ := (ofHeader_error_iff _ cause).mp read
      rw [ofTable, read]
      exact .missingColumn field

theorem ofTexts_append (columns : Columns) (row : Nat) (front back : List (List (List Char))) :
    ofTexts columns row (front ++ back) = ofTexts columns row front >>= fun ticks =>
      (ofTexts columns (row + front.length) back).map (ticks ++ ·) := by
  induction front generalizing row with
  | nil =>
    rw [List.nil_append, ofTexts, List.length_nil, Nat.add_zero]
    cases ofTexts columns row back <;> rfl
  | cons texts front ih =>
    rw [List.cons_append, ofTexts, ofTexts]
    cases ofRow columns row texts with
    | error cause => rfl
    | ok tick =>
      have place : row + (texts :: front).length = row + 1 + front.length := by
        rw [List.length_cons]
        omega
      simp only [bind, Except.bind, ih, place]
      cases ofTexts columns (row + 1) front with
      | error cause => rfl
      | ok ticks => cases ofTexts columns (row + 1 + front.length) back <;> rfl

/-- Loading is concatenative. Behind a header line and complete lines `a`, lines `b` add what they load
    as behind the header alone: their ticks stand behind those of `a`, and their first bad row counts on
    from the rows of `a`. A bad row of `a` decides alone. -/
theorem load_append {find : Lookup} {front back whole : String} {h a b : List Char}
    {header : List (List Char)} (one : Csv.table h = [header])
    (names : ∀ field : Field, field.name.toList ∈ header) (ends : Csv.EndsLine h)
    (ends' : Csv.EndsLine (h ++ a)) (frontFile : find front = .ok (.file (Utf8.encode (h ++ a))))
    (backFile : find back = .ok (.file (Utf8.encode (h ++ b))))
    (wholeFile : find whole = .ok (.file (Utf8.encode (h ++ a ++ b)))) :
    (∃ ticks, load find front = .ok ticks ∧
      ((∃ more, load find back = .ok more ∧ load find whole = .ok (ticks ++ more)) ∨
        ∃ row field value, load find back = .error (.malformed row field value) ∧
          load find whole = .error (.malformed (ticks.length + row) field value))) ∨
      ∃ row field value, load find front = .error (.malformed row field value) ∧
        load find whole = .error (.malformed row field value) := by
  obtain ⟨rows, more, frontTable, backTable, wholeTable⟩ := Csv.table_append ends ends' b
  obtain ⟨columns, read⟩ := ofHeader_of_names names
  have loads {path : String} {text : List Char} {rows : List (List (List Char))}
      (file : find path = .ok (.file (Utf8.encode text)))
      (table : Csv.table text = Csv.table h ++ rows) :
      load find path = ofTexts columns 1 rows := by
    rw [load_text file, table, one, ofTable, List.singleton_append, List.headD_cons, read]
    rfl
  rw [loads frontFile frontTable, loads backFile backTable, loads wholeFile wholeTable,
    ofTexts_append]
  rcases ofTexts_anywhere columns rows with ⟨ticks, lengths, good⟩ | ⟨i, field, value, bad⟩
  · refine .inl ⟨ticks, good 1, ?_⟩
    rcases ofTexts_anywhere columns more with ⟨later, _, good'⟩ | ⟨i, field, value, bad'⟩
    · refine .inl ⟨later, good' 1, ?_⟩
      rw [good, good']
      rfl
    · refine .inr ⟨1 + i, field, value, bad' 1, ?_⟩
      have place : 1 + rows.length + i = ticks.length + (1 + i) := by omega
      rw [good, bad', place]
      rfl
  · refine .inr ⟨1 + i, field, value, bad 1, ?_⟩
    rw [bad]
    rfl

/-- A quoted line end in front, a line end of two bytes that the cut goes through, and a bad price. -/
theorem load_append_bad_row :
    let h := "timestamp_ms,symbol,price,volume\r".toList
    let a := "\n1,\"A\n\",2,3\r".toList
    let b := "\n\n4,B,x,5".toList
    let find : Lookup := fun path => .ok (.file (Utf8.encode
      (if path = "front.csv" then h ++ a else if path = "back.csv" then h ++ b else h ++ a ++ b)))
    let header := Field.all.map fun field => field.name.toList
    let tick : Tick := ⟨1, "A\n", .ofCode false 0x4000000000000000, .ofCode false 0x4008000000000000⟩
    Csv.table h = [header] ∧ (∀ field : Field, field.name.toList ∈ header) ∧ Csv.EndsLine h ∧
      Csv.EndsLine (h ++ a) ∧ load find "front.csv" = .ok [tick] ∧
      load find "back.csv" = .error (.malformed 1 .price "x") ∧
      load find "whole.csv" = .error (.malformed 2 .price "x") := by
  intro h a b find header tick
  have one : Csv.table h = [header] := by decide +kernel
  have names : ∀ field : Field, field.name.toList ∈ header := by
    intro field
    cases field <;> decide
  have ends : Csv.EndsLine h :=
    ⟨"timestamp_ms,symbol,price,volume".toList, '\r', by decide +kernel, .inr rfl, by decide +kernel⟩
  have ends' : Csv.EndsLine (h ++ a) :=
    ⟨h ++ "\n1,\"A\n\",2,3".toList, '\r', by decide +kernel, .inr rfl, by decide +kernel⟩
  have front : load find "front.csv" = .ok [tick] := by decide +kernel
  have back : load find "back.csv" = .error (.malformed 1 .price "x") := by decide +kernel
  refine ⟨one, names, ends, ends', front, back, ?_⟩
  have appended := @load_append find "front.csv" "back.csv" "whole.csv" h a b header one names ends
    ends' rfl rfl rfl
  rcases appended with
    ⟨ticks, loaded, ⟨more, later, _⟩ | ⟨row, field, value, later, whole⟩⟩ | ⟨_, _, _, refused, _⟩
  · rw [back] at later
    cases later
  · rw [front] at loaded
    rw [back] at later
    cases loaded
    cases later
    exact whole
  · rw [front] at refused
    cases refused

end TickReplay.Tick
