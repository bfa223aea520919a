import TickReplay.Proofs.Text.Utf8
import TickReplay.Proofs.Tick.File

/- What a file loads as, told without the loader: the texts of the fields, the columns of the header
   and, where the load fails, the first thing that is wrong. -/
namespace TickReplay.Csv

structure FirstFault (fields : List (List UInt8)) (index validUpTo : Nat) : Prop where
  earlier : ∃ texts : List (List Char), texts.map Utf8.encode = fields.take index
  refused : ∃ bytes, fields[index]? = some bytes ∧ Utf8.ValidUpTo bytes validUpTo

theorem decodeFields_ok_iff (index : Nat) (fields : List (List UInt8)) (texts : List (List Char)) :
    decodeFields index fields = .ok texts ↔ texts.map Utf8.encode = fields := by
  induction fields generalizing index texts with
  | nil => cases texts <;> simp [decodeFields]
  | cons bytes more ih =>
    rw [decodeFields]
    cases read : Utf8.decode bytes with
    | error fault =>
      refine ⟨nofun, ?_⟩
      intro same
      cases texts with
      | nil => cases same
      | cons text texts =>
        obtain ⟨written, _⟩ := List.cons.inj same
        rw [(Utf8.decode_ok_iff bytes text).mpr written] at read
        cases read
    | ok text =>
      have written := (Utf8.decode_ok_iff bytes text).mp read
      cases texts with
      | nil =>
        cases decodeFields (index + 1) more <;> simp [Except.map]
      | cons other texts =>
        rw [List.map_cons, List.cons.injEq, ← ih (index + 1) texts, ← Utf8.decode_ok_iff, read]
        cases decodeFields (index + 1) more <;> simp [Except.map]

theorem decodeFields_error_iff (index : Nat) (fields : List (List UInt8)) (fault : FieldFault) :
    decodeFields index fields = .error fault ↔
      ∃ i, fault.field = index + i ∧ FirstFault fields i fault.validUpTo := by
  induction fields generalizing index with
  | nil =>
    refine ⟨nofun, ?_⟩
    rintro ⟨i, _, _, bytes, absent, _⟩
    cases absent
  | cons bytes more ih =>
    rw [decodeFields]
    cases read : Utf8.decode bytes with
    | error broken =>
      have valid := Utf8.decode_error_validUpTo read
      constructor
      · intro same
        cases same
        exact ⟨0, rfl, ⟨[], rfl⟩, bytes, rfl, valid⟩
      · rintro ⟨i, place, ⟨texts, written⟩, refused⟩
        cases i with
        | zero =>
          obtain ⟨_, at_, validUpTo⟩ := refused
          obtain ⟨field, upTo⟩ := fault
          cases at_
          cases place
          cases valid.eq validUpTo
          rfl
        | succ i =>
          cases texts with
          | nil => cases written
          | cons text texts => exact absurd (List.cons.inj written).1 (valid.refused text)
    | ok text =>
      have written := (Utf8.decode_ok_iff bytes text).mp read
      dsimp only
      rw [map_error_iff, ih (index + 1)]
      constructor
      · rintro ⟨i, place, ⟨texts, same⟩, refused⟩
        refine ⟨i + 1, by omega, ⟨text :: texts, ?_⟩, refused⟩
        simp only [List.map_cons, List.take_succ_cons, written, same]
      · rintro ⟨i, place, ⟨texts, same⟩, refused⟩
        cases i with
        | zero =>
          obtain ⟨_, at_, validUpTo⟩ := refused
          cases at_
          exact absurd written (validUpTo.refused text)
        | succ i =>
          refine ⟨i, by omega, ⟨texts.tail, ?_⟩, refused⟩
          cases texts with
          | nil => cases same
          | cons other texts => exact (List.cons.inj same).2

theorem decode_ok_iff (record : Record) (texts : List (List Char)) :
    record.decode = .ok texts ↔ texts.map Utf8.encode = record.fields :=
  decodeFields_ok_iff 0 record.fields texts

theorem decode_error_iff (record : Record) (fault : FieldFault) :
    record.decode = .error fault ↔ FirstFault record.fields fault.field fault.validUpTo := by
  rw [Record.decode, decodeFields_error_iff]
  simp only [Nat.zero_add, exists_eq_left']

end TickReplay.Csv

namespace TickReplay.Text

def IsInt64 (cs : List Char) (value : Int64) : Prop :=
  ∃ (negative : Bool) (ds : List Char), ds ≠ [] ∧ (∀ d ∈ ds, d.isDigit) ∧
    (if negative then cs = '-' :: ds else cs = ds ∨ cs = '+' :: ds) ∧
    value.toInt = if negative then -(Nat.ofDigitChars 10 ds 0 : Int) else Nat.ofDigitChars 10 ds 0

theorem splitSign_iff {cs ds : List Char} {negative : Bool} (digits : ∀ d ∈ ds, d.isDigit) :
    Decimal.splitSign cs = (negative, ds) ↔
      if negative then cs = '-' :: ds else cs = ds ∨ cs = '+' :: ds := by
  have minus : '-' ∉ ds := fun member => absurd (digits _ member) (by decide)
  have plus : '+' ∉ ds := fun member => absurd (digits _ member) (by decide)
  unfold Decimal.splitSign
  split <;> cases negative <;> grind

theorem ofInt_eq_iff {n : Int} (value : Int64) (low : -(half64 : Int) ≤ n) (high : n < half64) :
    Int64.ofInt n = value ↔ value.toInt = n := by
  rw [← Int64.toInt_inj, Int64.toInt_ofInt_of_le low high, eq_comm]

theorem readInt64_iff (cs : List Char) (value : Int64) :
    readInt64 cs = some value ↔ IsInt64 cs value := by
  have half : (half64 : Int) = 2 ^ 63 := rfl
  have range := value.toInt_lt
  have range' := value.le_toInt
  constructor
  · intro read
    unfold readInt64 at read
    rcases sign : Decimal.splitSign cs with ⟨negative, ds⟩
    simp only [sign, Bool.or_eq_true, Bool.not_eq_true'] at read
    split at read
    · cases read
    · rename_i wellFormed
      rw [not_or, Bool.not_eq_false, List.all_eq_true, List.isEmpty_iff] at wellFormed
      refine ⟨negative, ds, wellFormed.1, wellFormed.2, (splitSign_iff wellFormed.2).mp sign, ?_⟩
      change _ = if negative then -(Decimal.natOfDigits ds : Int) else Decimal.natOfDigits ds
      cases negative
      · simp only [Bool.false_eq_true, if_false] at read ⊢
        split at read
        · rename_i fits
          exact (ofInt_eq_iff value (by omega) (by omega)).mp (Option.some.inj read)
        · cases read
      · simp only [if_true] at read ⊢
        split at read
        · rename_i fits
          exact (ofInt_eq_iff value (by omega) (by omega)).mp (Option.some.inj read)
        · cases read
  · rintro ⟨negative, ds, some_, digits, sign, number⟩
    change _ = if negative then -(Decimal.natOfDigits ds : Int) else Decimal.natOfDigits ds at number
    have sign := (splitSign_iff digits).mpr sign
    have wellFormed : (ds.isEmpty || !ds.all Char.isDigit) = false := by
      rw [Bool.or_eq_false_iff, Bool.not_eq_false', List.all_eq_true, List.isEmpty_eq_false_iff]
      exact ⟨some_, digits⟩
    unfold readInt64
    simp only [sign, wellFormed, Bool.false_eq_true, if_false]
    cases negative
    · simp only [Bool.false_eq_true, if_false] at number ⊢
      have fits : Decimal.natOfDigits ds < half64 := by omega
      rw [if_pos fits, (ofInt_eq_iff value (by omega) (by omega)).mpr number]
    · simp only [if_true] at number ⊢
      have fits : Decimal.natOfDigits ds ≤ half64 := by omega
      rw [if_pos fits, (ofInt_eq_iff value (by omega) (by omega)).mpr number]

end TickReplay.Text

namespace TickReplay.Tick

def IsFirst {α : Type} (xs : List α) (x : α) (index : Nat) : Prop :=
  xs[index]? = some x ∧ ∀ i < index, xs[i]? ≠ some x

def FirstFailing (good : Field → Prop) (order : List Field) (field : Field) : Prop :=
  ∃ earlier later, order = earlier ++ field :: later ∧ (∀ f ∈ earlier, good f) ∧ ¬good field

theorem firstFailing_nil (good : Field → Prop) (field : Field) : ¬FirstFailing good [] field := by
  rintro ⟨earlier, later, split, _⟩
  cases earlier <;> cases split

theorem firstFailing_cons (good : Field → Prop) (first field : Field) (more : List Field) :
    FirstFailing good (first :: more) field ↔
      (¬good first ∧ field = first) ∨ (good first ∧ FirstFailing good more field) := by
  constructor
  · rintro ⟨earlier, later, split, before, bad⟩
    cases earlier with
    | nil =>
      cases split
      exact .inl ⟨bad, rfl⟩
    | cons f earlier =>
      cases split
      have members := List.forall_mem_cons.mp before
      exact .inr ⟨members.1, earlier, later, rfl, members.2, bad⟩
  · rintro (⟨bad, rfl⟩ | ⟨good, earlier, later, rfl, before, bad⟩)
    · exact ⟨[], more, rfl, nofun, bad⟩
    · exact ⟨first :: earlier, later, rfl, List.forall_mem_cons.mpr ⟨good, before⟩, bad⟩

def Columns.of (columns : Columns) : Field → Nat
  | .timestamp => columns.timestamp
  | .symbol => columns.symbol
  | .price => columns.price
  | .volume => columns.volume

theorem column_ok_iff (header : List (List Char)) (field : Field) (index : Nat) :
    column header field = .ok index ↔ IsFirst header field.name.toList index := by
  unfold column IsFirst
  cases found : header.findIdx? fun name => name == field.name.toList with
  | none =>
    refine ⟨nofun, ?_⟩
    rintro ⟨here, _⟩
    have absent := List.findIdx?_eq_none_iff.mp found _ (List.mem_of_getElem? here)
    simp at absent
  | some place =>
    obtain ⟨inside, here, before⟩ := List.findIdx?_eq_some_iff_getElem.mp found
    have here := eq_of_beq here
    constructor
    · intro same
      cases same
      refine ⟨by rw [List.getElem?_eq_getElem inside, here], ?_⟩
      intro i less
      rw [List.getElem?_eq_getElem (by omega)]
      simpa using before i less
    · rintro ⟨there, first⟩
      obtain ⟨inside', there⟩ := List.getElem?_eq_some_iff.mp there
      have notLess : ¬place < index := by
        intro less
        exact first place less (by rw [List.getElem?_eq_getElem inside, here])
      have notMore : ¬index < place := by
        intro less
        exact before index less (by simp [there])
      rw [show place = index by omega]

theorem column_error_iff (header : List (List Char)) (field : Field) (cause : LoadError) :
    column header field = .error cause ↔
      field.name.toList ∉ header ∧ cause = .missingColumn field := by
  unfold column
  cases found : header.findIdx? fun name => name == field.name.toList with
  | none =>
    have absent := List.findIdx?_eq_none_iff.mp found
    have missing : field.name.toList ∉ header := by
      intro member
      simpa using absent _ member
    simp only [missing, not_false_eq_true, true_and, Except.error.injEq, eq_comm]
  | some place =>
    obtain ⟨inside, here, _⟩ := List.findIdx?_eq_some_iff_getElem.mp found
    have member : field.name.toList ∈ header := eq_of_beq here ▸ List.getElem_mem inside
    simp [member]

theorem mem_header_iff (header : List (List Char)) (field : Field) :
    (∃ index, column header field = .ok index) ↔ field.name.toList ∈ header := by
  constructor
  · rintro ⟨index, read⟩
    exact List.mem_of_getElem? ((column_ok_iff header field index).mp read).1
  · intro member
    cases read : column header field with
    | ok index => exact ⟨index, rfl⟩
    | error cause => exact absurd member ((column_error_iff header field cause).mp read).1

theorem ofHeader_ok_iff (header : List (List Char)) (columns : Columns) :
    Columns.ofHeader header = .ok columns ↔
      ∀ field : Field, IsFirst header field.name.toList (columns.of field) := by
  unfold Columns.ofHeader
  simp only [bind_ok_iff, column_ok_iff]
  constructor
  · rintro ⟨t, timestamp, s, symbol, p, price, v, volume, same⟩ field
    cases same
    cases field <;> assumption
  · intro first
    exact ⟨_, first .timestamp, _, first .symbol, _, first .price, _, first .volume, rfl⟩

theorem ofHeader_error_iff (header : List (List Char)) (cause : LoadError) :
    Columns.ofHeader header = .error cause ↔
      ∃ field, FirstFailing (fun f => f.name.toList ∈ header) Field.all field ∧
        cause = .missingColumn field := by
  unfold Columns.ofHeader
  simp only [bind_error_iff, column_error_iff, Field.all, firstFailing_cons, firstFailing_nil,
    and_false, or_false, or_and_right, exists_or, and_assoc, exists_and_left, exists_eq_left]
  simp [pure, Except.pure, mem_header_iff]

def Holds (columns : Columns) (texts : List (List Char)) (tick : Tick) : Field → Prop
  | .symbol => texts[columns.symbol]? = some tick.symbol.toList ∧ tick.symbol ≠ ""
  | .timestamp => ∃ text, texts[columns.timestamp]? = some text ∧
      Text.IsInt64 (Text.trim text) tick.timestamp
  | .price => ∃ text, texts[columns.price]? = some text ∧
      Decimal.readLiteral (Text.trim text) = .ok tick.price ∧ tick.price.isFinite
  | .volume => ∃ text, texts[columns.volume]? = some text ∧
      Decimal.readLiteral (Text.trim text) = .ok tick.volume ∧ tick.volume.isFinite

def HasValue (columns : Columns) (texts : List (List Char)) (field : Field) : Prop :=
  ∃ tick, Holds columns texts tick field

/-- The order in which the columns of a row are checked. -/
def checked : List Field := [.symbol, .timestamp, .price, .volume]

/-- What becomes of a row of data. -/
inductive RowReads (columns : Columns) (row : Nat) (record : Csv.Record) :
    Except LoadError Tick → Prop where
  | tick {texts : List (List Char)} {tick : Tick} :
      texts.map Utf8.encode = record.fields → (∀ field, Holds columns texts tick field) →
        RowReads columns row record (.ok tick)
  | notText {fault : Csv.FieldFault} :
      Csv.FirstFault record.fields fault.field fault.validUpTo →
        RowReads columns row record (.error (.notText row record.start fault))
  | malformed {texts : List (List Char)} {field : Field} :
      texts.map Utf8.encode = record.fields →
      FirstFailing (HasValue columns texts) checked field →
        RowReads columns row record (.error (.malformed row field
          (String.ofList (texts[columns.of field]?.getD []))))

theorem decodeRecord_ok_iff (row : Nat) (record : Csv.Record) (texts : List (List Char)) :
    decodeRecord row record = .ok texts ↔ texts.map Utf8.encode = record.fields := by
  rw [← Csv.decode_ok_iff, decodeRecord]
  cases record.decode <;> simp

theorem decodeRecord_error_iff (row : Nat) (record : Csv.Record) (cause : LoadError) :
    decodeRecord row record = .error cause ↔
      ∃ fault, Csv.FirstFault record.fields fault.field fault.validUpTo ∧
        cause = .notText row record.start fault := by
  simp only [← Csv.decode_error_iff]
  rw [decodeRecord]
  cases record.decode <;> simp [eq_comm]

theorem cell_ok_iff {α : Type} (read : List Char → Option α) (empty : read [] = none)
    (row : Nat) (field : Field) (texts : List (List Char)) (index : Nat) (value : α) :
    cell read row field texts index = .ok value ↔
      ∃ text, texts[index]? = some text ∧ read (Text.trim text) = some value := by
  have blank : read (Text.trim []) = none := empty
  unfold cell
  cases texts[index]? with
  | none => simp [blank]
  | some text => cases given : read (Text.trim text) <;> simp [given]

theorem cell_error_iff {α : Type} (read : List Char → Option α) (empty : read [] = none)
    (row : Nat) (field : Field) (texts : List (List Char)) (index : Nat) (cause : LoadError) :
    cell read row field texts index = .error cause ↔
      (¬∃ value, cell read row field texts index = .ok value) ∧
        cause = .malformed row field (String.ofList (texts[index]?.getD [])) := by
  unfold cell
  cases texts[index]? with
  | none => simp [empty, Text.trim, Text.trimLeft, eq_comm]
  | some text => cases given : read (Text.trim text) <;> simp [given, eq_comm]

theorem readFinite_iff (cs : List Char) (value : Binary64) :
    readFinite cs = some value ↔ Decimal.readLiteral cs = .ok value ∧ value.isFinite := by
  unfold readFinite
  cases Decimal.readLiteral cs with
  | error cause => simp
  | ok other =>
    dsimp only
    by_cases finite : other.isFinite <;> simp [finite] <;> grind

theorem symbol_iff (texts : List (List Char)) (index : Nat) (symbol : String) :
    texts[index]? = some symbol.toList ∧ symbol ≠ "" ↔
      ¬(texts[index]?.getD []).isEmpty ∧ String.ofList (texts[index]?.getD []) = symbol := by
  cases texts[index]? with
  | none => simp
  | some text =>
    simp only [Option.some.injEq, Option.getD_some, List.isEmpty_iff]
    constructor
    · rintro ⟨rfl, some_⟩
      exact ⟨by simpa using some_, String.ofList_toList⟩
    · rintro ⟨some_, rfl⟩
      exact ⟨String.toList_ofList.symm, by simpa using some_⟩

theorem ofRow_ok_iff (columns : Columns) (row : Nat) (texts : List (List Char)) (tick : Tick) :
    ofRow columns row texts = .ok tick ↔ ∀ field, Holds columns texts tick field := by
  have timestamps := cell_ok_iff Text.readInt64 rfl row .timestamp texts columns.timestamp
  have reals (field : Field) := cell_ok_iff readFinite (by decide) row field texts
  simp only [Text.readInt64_iff] at timestamps
  simp only [readFinite_iff] at reals
  constructor
  · intro read
    unfold ofRow at read
    simp only at read
    split at read
    · cases read
    · rename_i some_
      simp only [bind_ok_iff, pure, Except.pure, Except.ok.injEq] at read
      obtain ⟨t, timestamp, p, price, v, volume, rfl⟩ := read
      intro field
      cases field with
      | timestamp => exact (timestamps t).mp timestamp
      | symbol => exact (symbol_iff texts _ _).mpr ⟨some_, rfl⟩
      | price => exact (reals _ _ p).mp price
      | volume => exact (reals _ _ v).mp volume
  · intro holds
    have timestamp := (timestamps tick.timestamp).mpr (holds .timestamp)
    obtain ⟨some_, symbol⟩ := (symbol_iff texts columns.symbol tick.symbol).mp (holds .symbol)
    have price := (reals .price columns.price tick.price).mpr (holds .price)
    have volume := (reals .volume columns.volume tick.volume).mpr (holds .volume)
    unfold ofRow
    simp only [some_, Bool.false_eq_true, if_false, timestamp, price, volume, symbol]
    rfl

theorem ofRow_error_iff (columns : Columns) (row : Nat) (texts : List (List Char))
    (cause : LoadError) : ofRow columns row texts = .error cause ↔
      ∃ field, FirstFailing (HasValue columns texts) checked field ∧
        cause = .malformed row field (String.ofList (texts[columns.of field]?.getD [])) := by
  have symbol : HasValue columns texts .symbol ↔ ¬(texts[columns.symbol]?.getD []).isEmpty := by
    constructor
    · rintro ⟨tick, holds⟩
      exact ((symbol_iff texts _ tick.symbol).mp holds).1
    · intro some_
      exact ⟨⟨0, _, .zero false, .zero false⟩, (symbol_iff texts _ _).mpr ⟨some_, rfl⟩⟩
  have timestamp : HasValue columns texts .timestamp ↔
      ∃ value, cell Text.readInt64 row .timestamp texts columns.timestamp = .ok value := by
    simp only [cell_ok_iff Text.readInt64 rfl, Text.readInt64_iff]
    constructor
    · rintro ⟨tick, holds⟩
      exact ⟨tick.timestamp, holds⟩
    · rintro ⟨value, holds⟩
      exact ⟨⟨value, "", .zero false, .zero false⟩, holds⟩
  have price : HasValue columns texts .price ↔
      ∃ value, cell readFinite row .price texts columns.price = .ok value := by
    simp only [cell_ok_iff readFinite (by decide), readFinite_iff]
    constructor
    · rintro ⟨tick, holds⟩
      exact ⟨tick.price, holds⟩
    · rintro ⟨value, holds⟩
      exact ⟨⟨0, "", value, .zero false⟩, holds⟩
  have volume : HasValue columns texts .volume ↔
      ∃ value, cell readFinite row .volume texts columns.volume = .ok value := by
    simp only [cell_ok_iff readFinite (by decide), readFinite_iff]
    constructor
    · rintro ⟨tick, holds⟩
      exact ⟨tick.volume, holds⟩
    · rintro ⟨value, holds⟩
      exact ⟨⟨0, "", .zero false, value⟩, holds⟩
  simp only [checked, firstFailing_cons, firstFailing_nil, and_false, or_false, or_and_right,
    exists_or, and_assoc, exists_and_left, exists_eq_left, symbol, timestamp, price, volume]
  unfold ofRow
  simp only
  split
  · rename_i none_
    have text : texts[columns.symbol]?.getD [] = [] := List.isEmpty_iff.mp none_
    simp [Columns.of, text, throw, throwThe, MonadExceptOf.throw, bind, Except.bind, eq_comm]
  · rename_i some_
    simp only [bind_error_iff, cell_error_iff Text.readInt64 rfl,
      cell_error_iff readFinite (by decide)]
    simp [some_, Columns.of, pure, Except.pure]

theorem readRow_iff (columns : Columns) (row : Nat) (record : Csv.Record)
    (result : Except LoadError Tick) :
    readRow columns row record = result ↔ RowReads columns row record result := by
  unfold readRow
  cases result with
  | ok tick =>
    simp only [bind_ok_iff, decodeRecord_ok_iff, ofRow_ok_iff]
    constructor
    · rintro ⟨texts, written, holds⟩
      exact .tick written holds
    · rintro ⟨written, holds⟩
      exact ⟨_, written, holds⟩
  | error cause =>
    simp only [bind_error_iff, decodeRecord_ok_iff, decodeRecord_error_iff, ofRow_error_iff]
    constructor
    · rintro (⟨fault, first, rfl⟩ | ⟨texts, written, field, first, rfl⟩)
      · exact .notText first
      · exact .malformed written first
    · intro reads
      cases reads with
      | notText first => exact .inl ⟨_, first, rfl⟩
      | malformed written first => exact .inr ⟨_, written, _, first, rfl⟩

theorem ofRows_error_iff (columns : Columns) (row : Nat) (records : List Csv.Record)
    (cause : LoadError) : ofRows columns row records = .error cause ↔
      ∃ i record, records[i]? = some record ∧ readRow columns (row + i) record = .error cause ∧
        ∀ j < i, ∀ earlier, records[j]? = some earlier →
          ∃ tick, readRow columns (row + j) earlier = .ok tick := by
  induction records generalizing row with
  | nil => simp [ofRows]
  | cons record records ih =>
    rw [ofRows_cons]
    cases first : readRow columns row record with
    | error other =>
      constructor
      · intro same
        cases same
        refine ⟨0, record, rfl, first, ?_⟩
        intro j less
        omega
      · rintro ⟨i, bad, here, refused, before⟩
        cases i with
        | zero =>
          cases here
          rw [Nat.add_zero, first] at refused
          cases refused
          rfl
        | succ i =>
          obtain ⟨tick, read⟩ := before 0 (by omega) record rfl
          rw [Nat.add_zero, first] at read
          cases read
    | ok tick =>
      dsimp only
      rw [map_error_iff, ih]
      constructor
      · rintro ⟨i, bad, here, refused, before⟩
        refine ⟨i + 1, bad, here, by rwa [← Nat.add_assoc, Nat.add_right_comm], ?_⟩
        intro j less earlier there
        cases j with
        | zero =>
          cases there
          exact ⟨tick, first⟩
        | succ j =>
          rw [← Nat.add_assoc, Nat.add_right_comm]
          exact before j (by omega) earlier there
      · rintro ⟨i, bad, here, refused, before⟩
        cases i with
        | zero =>
          cases here
          rw [Nat.add_zero, first] at refused
          cases refused
        | succ i =>
          refine ⟨i, bad, here, by rwa [Nat.add_right_comm, Nat.add_assoc], ?_⟩
          intro j less earlier there
          rw [Nat.add_right_comm, Nat.add_assoc]
          exact before (j + 1) (by omega) earlier there

/-- The texts of a header. A file without records has an empty one. -/
def HeaderTexts (bytes : List UInt8) (names : List (List Char)) : Prop :=
  names.map Utf8.encode = ((Csv.records bytes).head?.map Csv.Record.fields).getD []

/-- What becomes of a file, whatever its bytes are. -/
inductive FileReads (bytes : List UInt8) : Except LoadError (List Tick) → Prop where
  | headerNotText {header : Csv.Record} {rows : List Csv.Record} {fault : Csv.FieldFault} :
      Csv.records bytes = header :: rows →
      Csv.FirstFault header.fields fault.field fault.validUpTo →
        FileReads bytes (.error (.notText 0 header.start fault))
  | missingColumn {names : List (List Char)} {field : Field} : HeaderTexts bytes names →
      FirstFailing (fun f => f.name.toList ∈ names) Field.all field →
        FileReads bytes (.error (.missingColumn field))
  | badRow {names : List (List Char)} {columns : Columns} {row : Nat} {record : Csv.Record}
      {cause : LoadError} : HeaderTexts bytes names →
      (∀ field, IsFirst names field.name.toList (columns.of field)) →
      (dataRows bytes)[row]? = some record →
      RowReads columns (row + 1) record (.error cause) →
      (∀ i < row, ∀ earlier, (dataRows bytes)[i]? = some earlier →
        ∃ tick, RowReads columns (i + 1) earlier (.ok tick)) →
        FileReads bytes (.error cause)
  | loaded {names : List (List Char)} {columns : Columns} {ticks : List Tick} :
      HeaderTexts bytes names →
      (∀ field, IsFirst names field.name.toList (columns.of field)) →
      ticks.length = (dataRows bytes).length →
      (∀ i record tick, (dataRows bytes)[i]? = some record → ticks[i]? = some tick →
        RowReads columns (i + 1) record (.ok tick)) →
        FileReads bytes (.ok ticks)

theorem readHeader_ok_iff (bytes : List UInt8) (columns : Columns) :
    readHeader bytes = .ok columns ↔ ∃ names, HeaderTexts bytes names ∧
      ∀ field : Field, IsFirst names field.name.toList (columns.of field) := by
  unfold readHeader HeaderTexts
  cases Csv.records bytes with
  | nil => simp [ofHeader_ok_iff]
  | cons header rows =>
    simp only [bind_ok_iff, decodeRecord_ok_iff, ofHeader_ok_iff]
    rfl

theorem readHeader_error_iff (bytes : List UInt8) (cause : LoadError) :
    readHeader bytes = .error cause ↔
      (∃ header rows fault, Csv.records bytes = header :: rows ∧
        Csv.FirstFault header.fields fault.field fault.validUpTo ∧
        cause = .notText 0 header.start fault) ∨
      ∃ names field, HeaderTexts bytes names ∧
        FirstFailing (fun f => f.name.toList ∈ names) Field.all field ∧
        cause = .missingColumn field := by
  unfold readHeader HeaderTexts
  cases Csv.records bytes with
  | nil => simp [ofHeader_error_iff]
  | cons header rows =>
    simp only [bind_error_iff, decodeRecord_ok_iff, decodeRecord_error_iff, ofHeader_error_iff]
    simp

theorem ofBytes_eq (bytes : List UInt8) : ofBytes bytes =
    readHeader bytes >>= fun columns => ofRows columns 1 (dataRows bytes) := by
  unfold ofBytes ofRecords readHeader dataRows
  cases Csv.records bytes with
  | nil => cases Columns.ofHeader [] <;> rfl
  | cons header rows => exact (bind_assoc _ _ _).symm

theorem rows_iff (columns : Columns) (records : List Csv.Record) (ticks : List Tick) :
    ofRows columns 1 records = .ok ticks ↔ ticks.length = records.length ∧
      ∀ i record tick, records[i]? = some record → ticks[i]? = some tick →
        RowReads columns (i + 1) record (.ok tick) := by
  rw [ofRows_ok_iff]
  constructor
  · intro same
    have lengths := congrArg List.length same
    refine ⟨by simpa using lengths.symm, ?_⟩
    intro i record tick here there
    have at_ := congrArg (fun results => results[i]?) same
    simp only [List.getElem?_mapIdx, List.getElem?_map, here, there, Option.map_some,
      Option.some.injEq] at at_
    rw [← readRow_iff, Nat.add_comm]
    exact at_
  · rintro ⟨lengths, reads⟩
    apply List.ext_getElem?
    intro i
    simp only [List.getElem?_mapIdx, List.getElem?_map]
    cases here : records[i]? with
    | none =>
      have past := List.getElem?_eq_none_iff.mp here
      rw [List.getElem?_eq_none_iff.mpr (by omega)]
      rfl
    | some record =>
      obtain ⟨inside, _⟩ := List.getElem?_eq_some_iff.mp here
      have there := List.getElem?_eq_getElem (l := ticks) (i := i) (by omega)
      have read := reads i record _ here there
      rw [← readRow_iff, Nat.add_comm] at read
      rw [there, Option.map_some, Option.map_some, read]

theorem load_file_iff (find : Lookup) (path : String) (bytes : List UInt8)
    (file : find path = .ok (.file bytes)) (result : Except LoadError (List Tick)) :
    load find path = result ↔ FileReads bytes result := by
  rw [load, file]
  simp only [ofBytes_eq]
  cases result with
  | ok ticks =>
    simp only [bind_ok_iff, readHeader_ok_iff, rows_iff]
    constructor
    · rintro ⟨columns, ⟨names, texts, first⟩, lengths, reads⟩
      exact .loaded texts first lengths reads
    · intro reads
      cases reads with
      | loaded texts first lengths reads => exact ⟨_, ⟨_, texts, first⟩, lengths, reads⟩
  | error cause =>
    simp only [bind_error_iff, readHeader_ok_iff, readHeader_error_iff, ofRows_error_iff,
      readRow_iff, Nat.add_comm 1]
    constructor
    · rintro ((⟨header, rows, fault, split, first, rfl⟩ | ⟨names, field, texts, missing, rfl⟩) |
        ⟨columns, ⟨names, texts, first⟩, row, record, here, bad, before⟩)
      · exact .headerNotText split first
      · exact .missingColumn texts missing
      · exact .badRow texts first here bad before
    · intro reads
      cases reads with
      | headerNotText split first => exact .inl (.inl ⟨_, _, _, split, first, rfl⟩)
      | missingColumn texts missing => exact .inl (.inr ⟨_, _, texts, missing, rfl⟩)
      | badRow texts first here bad before =>
        exact .inr ⟨_, ⟨_, texts, first⟩, _, _, here, bad, before⟩

instance decidableResult {ε α : Type} [DecidableEq ε] [DecidableEq α] : DecidableEq (Except ε α)
  | .ok a, .ok b => decidable_of_iff (a = b) (by rw [Except.ok.injEq])
  | .error a, .error b => decidable_of_iff (a = b) (by rw [Except.error.injEq])
  | .ok _, .error _ => .isFalse nofun
  | .error _, .ok _ => .isFalse nofun

/- A mark in front, columns in another order and blanks around the numbers. -/
def soundFile : List UInt8 := Utf8.encode
  "\uFEFFsymbol,price,volume,timestamp_ms\nA,\u2003.125e+3 ,0.5,\t+70\r\n".toList

/- Blank lines and a second column of the same name; the last row fails in three columns. -/
def faultyFile : List UInt8 := Utf8.encode
  "timestamp_ms,symbol,price,volume,symbol\n\n1,A,1,2,B\n\nx,\"\",1e999,3\n".toList

theorem load_file_sound_and_faulty :
    let find : Lookup := fun path =>
      .ok (.file (if path = "sound.csv" then soundFile else faultyFile))
    let tick : Tick := ⟨70, "A", .ofCode false 0x405f400000000000, .ofCode false 0x3fe0000000000000⟩
    (find "sound.csv" = .ok (.file soundFile) ∧ FileReads soundFile (.ok [tick])) ∧
      find "faulty.csv" = .ok (.file faultyFile) ∧
      FileReads faultyFile (.error (.malformed 2 .symbol "")) := by
  intro find tick
  have sound : find "sound.csv" = .ok (.file soundFile) := by decide +kernel
  have faulty : find "faulty.csv" = .ok (.file faultyFile) := by decide +kernel
  have loaded : load find "sound.csv" = .ok [tick] := by decide +kernel
  have refused : load find "faulty.csv" = .error (.malformed 2 .symbol "") := by decide +kernel
  exact ⟨⟨sound, (load_file_iff find "sound.csv" soundFile sound _).mp loaded⟩, faulty,
    (load_file_iff find "faulty.csv" faultyFile faulty _).mp refused⟩

end TickReplay.Tick
