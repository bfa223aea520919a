import TickReplay.Proofs.Tick.Delivery
import TickReplay.Proofs.Tick.Finite

/- A minus in front of a number. Digits are read without regard to the sign, so a numeral is taken or
   refused at the same place with a minus as without, and what it denotes differs in the sign alone.
   Everything that is read behind it carries the other sign along. -/
namespace TickReplay.Tick

open Json (Fault Literal Number EndsNumeral QuotedText isSpace)

def asReal (read : Except Fault (Number × List Char)) : Except Fault (Binary64 × List Char) :=
  read.map (Prod.map realOfNumber id)

def opposite (read : Except Fault (Binary64 × List Char)) : Except Fault (Binary64 × List Char) :=
  read.map (Prod.map Binary64.neg id)

theorem neg_ofCode (negative : Bool) (code : Nat) :
    (Binary64.ofCode negative code).neg = .ofCode (!negative) code := rfl

theorem scaledNumber_minus (significand : Nat) (exponent : Int) (rest : List Char) :
    asReal (Json.scaledNumber true significand exponent rest) =
      opposite (asReal (Json.scaledNumber false significand exponent rest)) := by
  unfold Json.scaledNumber
  cases Json.scaled significand exponent <;> rfl

theorem readExponent_minus (significand : Nat) (exponent : Int) (cs : List Char) :
    asReal (Json.readExponent true significand exponent cs) =
      opposite (asReal (Json.readExponent false significand exponent cs)) := by
  unfold Json.readExponent
  rcases Decimal.splitSign cs with ⟨downward, _ | ⟨c, rest⟩⟩
  · rfl
  dsimp only
  by_cases digit : c.isDigit
  swap
  · simp only [digit]
    rfl
  simp only [digit, Bool.not_true, Bool.false_eq_true, if_false]
  cases Json.exponentDigits (Decimal.digitValue c) rest with
  | ok found => exact scaledNumber_minus _ _ _
  | error more =>
    dsimp only
    split <;> rfl

theorem readFraction_minus (significand excess : Nat) (cs : List Char) :
    asReal (Json.readFraction true significand excess cs) =
      opposite (asReal (Json.readFraction false significand excess cs)) := by
  unfold Json.readFraction
  cases cs with
  | nil => rfl
  | cons c cs =>
    dsimp only
    by_cases digit : c.isDigit
    swap
    · simp only [digit]
      rfl
    simp only [digit, Bool.not_true, Bool.false_eq_true, if_false]
    rcases Json.fractionDigits significand 0 (c :: cs) with ⟨taken, places, _ | ⟨e, more⟩⟩
    · exact scaledNumber_minus _ _ _
    · dsimp only
      split
      · exact readExponent_minus _ _ _
      · exact scaledNumber_minus _ _ _

theorem readAfterWhole_minus (significand excess : Nat) (rest : List Char) :
    asReal (Json.readAfterWhole true significand excess rest) =
      opposite (asReal (Json.readAfterWhole false significand excess rest)) := by
  have whole (n : Nat) : realOfNumber (Json.wholeNumber true n) =
      (realOfNumber (Json.wholeNumber false n)).neg := by
    rw [realOfNumber_wholeNumber, realOfNumber_wholeNumber, neg_ofCode, Bool.not_false]
  have ended : asReal (if excess = 0 then .ok (Json.wholeNumber true significand, rest)
        else Json.scaledNumber true significand excess rest) =
      opposite (asReal (if excess = 0 then .ok (Json.wholeNumber false significand, rest)
        else Json.scaledNumber false significand excess rest)) := by
    split
    · simp [asReal, opposite, Except.map, whole]
    · exact scaledNumber_minus _ _ _
  unfold Json.readAfterWhole
  cases rest with
  | nil => exact ended
  | cons c more =>
    dsimp only
    split
    · exact readFraction_minus _ _ _
    split
    · exact readExponent_minus _ _ _
    · exact ended

theorem readUnsigned_minus (cs : List Char) :
    asReal (Json.readUnsigned true cs) = opposite (asReal (Json.readUnsigned false cs)) := by
  unfold Json.readUnsigned
  cases cs with
  | nil => rfl
  | cons c rest =>
    dsimp only
    split
    · rfl
    split
    · cases rest with
      | nil => exact readAfterWhole_minus _ _ _
      | cons d more =>
        dsimp only
        split
        · rfl
        · exact readAfterWhole_minus _ _ _
    · exact readAfterWhole_minus _ _ _

theorem readReal_eq (cs : List Char) : readReal cs = asReal (readNumber realWanted cs) := by
  unfold readReal asReal
  cases readNumber realWanted cs <;> rfl

theorem readReal_blank {gap : List Char} (blank : Blank gap) (cs : List Char) :
    readReal (gap ++ cs) = readReal cs := by
  rw [readReal_eq, readReal_eq, readNumber, readNumber, skipSpace_blank blank]

theorem readReal_minus {c : Char} (digit : c.isDigit) (cs : List Char) :
    readReal ('-' :: c :: cs) = opposite (readReal (c :: cs)) := by
  have numeral : Json.startsNumeral c := by simp [Json.startsNumeral, digit]
  rw [readReal_eq, readReal_eq, readNumber_numeral realWanted (by decide),
    readNumber_numeral realWanted numeral, Json.readNumeral_digit digit]
  exact readUnsigned_minus (c :: cs)

def Field.isReal : Field → Bool
  | .price | .volume => true
  | .timestamp | .symbol => false

def negate (field : Field) (t : Tick) : Tick :=
  match field with
  | .price => { t with price := t.price.neg }
  | .volume => { t with volume := t.volume.neg }
  | .timestamp | .symbol => t

def Draft.negate (field : Field) (draft : Draft) : Draft :=
  match field with
  | .price => { draft with price := draft.price.map Binary64.neg }
  | .volume => { draft with volume := draft.volume.map Binary64.neg }
  | .timestamp | .symbol => draft

theorem has_negate (field other : Field) (draft : Draft) :
    (draft.negate field).has other = draft.has other := by
  cases field <;> cases other <;> simp [Draft.negate, Draft.has]

theorem complete_negate (field : Field) (draft : Draft) :
    (draft.negate field).complete = draft.complete.map (negate field) := by
  obtain ⟨timestamp, symbol, price, volume⟩ := draft
  cases field <;> cases timestamp <;> cases symbol <;> cases price <;> cases volume <;> rfl

theorem read_negate {field other : Field} (apart : other ≠ field) (draft : Draft) (cs : List Char) :
    (draft.negate field).read other cs =
      (draft.read other cs).map (Prod.map (Draft.negate field) id) := by
  cases other with
  | timestamp => cases field <;> rw [Draft.read, Draft.read] <;> cases readTimestamp cs <;> rfl
  | symbol => cases field <;> rw [Draft.read, Draft.read] <;> cases readSymbol cs <;> rfl
  | price =>
    cases field with
    | price => contradiction
    | timestamp | symbol | volume =>
      rw [Draft.read, Draft.read]
      cases readReal cs <;> rfl
  | volume =>
    cases field with
    | volume => contradiction
    | timestamp | symbol | price =>
      rw [Draft.read, Draft.read]
      cases readReal cs <;> rfl

theorem read_minus {field : Field} (real : field.isReal) (draft : Draft) {c : Char}
    (digit : c.isDigit) {gap : List Char} (blank : Blank gap) (cs : List Char) :
    draft.read field (gap ++ '-' :: c :: cs) =
      (draft.read field (gap ++ c :: cs)).map (Prod.map (Draft.negate field) id) := by
  cases field with
  | timestamp | symbol => contradiction
  | price | volume =>
    rw [Draft.read, Draft.read, readReal_blank blank, readReal_blank blank, readReal_minus digit]
    cases readReal (c :: cs) <;> rfl

theorem readMembers_negate {field : Field} {draft : Draft} (known : draft.has field) (room : Nat)
    (first : Bool) (cs : List Char) :
    readMembers room (draft.negate field) first cs =
      (readMembers room draft first cs).map (Prod.map (Draft.negate field) id) := by
  induction room generalizing draft first cs with
  | zero =>
    unfold readMembers
    rcases Json.nextKey first cs with fault | _ | ⟨key, rest⟩
    · rfl
    · rfl
    · dsimp only
      cases Field.named? (String.ofList key) <;> rfl
  | succ room ih =>
    unfold readMembers
    rcases Json.nextKey first cs with fault | _ | ⟨key, rest⟩
    · rfl
    · rfl
    dsimp only
    rcases Field.named? (String.ofList key) with _ | other
    · rfl
    dsimp only
    rw [has_negate]
    cases absent : draft.has other with
    | true => rfl
    | false =>
      -- The number is known already, so none of the members behind it is read into its place.
      have apart : other ≠ field := by
        rintro rfl
        simp [known] at absent
      rcases Json.colon rest with fault | value
      · rfl
      simp only [Bool.false_eq_true, if_false, bind, Except.bind, read_negate apart]
      cases read : draft.read other value with
      | error fault => rfl
      | ok found =>
        have still : found.1.has field := by simp [has_read read, known]
        exact ih still false found.2

theorem readElements_negate {field : Field} {fields : List Field} (behind : field ∉ fields)
    (draft : Draft) (cs : List Char) (count : Nat) :
    readElements (draft.negate field) cs count fields =
      (readElements draft cs count fields).map (Prod.map (Draft.negate field) id) := by
  induction fields generalizing draft cs count with
  | nil => rfl
  | cons other fields ih =>
    have apart : other ≠ field := (List.ne_of_not_mem_cons behind).symm
    have behind : field ∉ fields := List.not_mem_of_not_mem_cons behind
    unfold readElements
    rcases Json.nextElement (count == 0) cs with fault | _ | rest
    · rfl
    · rfl
    simp only [read_negate apart]
    rcases draft.read other rest with fault | found
    · rfl
    · exact ih behind found.1 found.2 (count + 1)

theorem closed_negate (field : Field) (read : Except Refusal (Draft × List Char)) (bracket : Char)
    (close : List Char → Except Fault (List Char)) :
    closed (read.map (Prod.map (Draft.negate field) id)) bracket close =
      (closed read bracket close).map (Prod.map (negate field) id) := by
  rcases read with refusal | ⟨draft, rest⟩
  · rfl
  · simp only [closed, Except.map, bind, Except.bind, Prod.map_apply, id_eq, complete_negate]
    cases draft.complete with
    | error missing => rfl
    | ok t =>
      simp only [pure, Except.pure]
      cases close rest <;> rfl

inductive CommaText (first : Bool) : List Char → Prop where
  | blanks {gap inner : List Char} (blank : Blank gap) (innerBlank : Blank inner) :
      CommaText first (gap ++ (separator first ++ inner))

inductive KeyText (first : Bool) (field : Field) : List Char → Prop where
  | colon {comma key before after : List Char} (next : CommaText first comma)
      (name : QuotedText key field.name.toList) (colonBlank : Blank before)
      (valueBlank : Blank after) : KeyText first field (comma ++ (key ++ (before ++ ':' :: after)))

/-- The text of a payload up to the value of a field. The members or elements in front of it are
    those of some tick. -/
inductive UpTo (field : Field) : List Char → Prop where
  | object {t : Tick} {front body lead : List Char} {order : List Field} (frontBlank : Blank front)
      (members : Items (MemberText t) true order body) (once : (field :: order).Nodup)
      (key : KeyText order.isEmpty field lead) : UpTo field (front ++ '\x7b' :: (body ++ lead))
  | list {t : Tick} {front body lead : List Char} {fields more : List Field}
      (frontBlank : Blank front) (elements : Items (ElementText t) true fields body)
      (place : Field.all = fields ++ field :: more) (comma : CommaText fields.isEmpty lead) :
      UpTo field (front ++ '[' :: (body ++ lead))

theorem CommaText.endsNumeral {first : Bool} {lead : List Char} (comma : CommaText first lead)
    {rest : List Char} (stop : first → EndsNumeral rest) : EndsNumeral (lead ++ rest) := by
  cases comma with
  | blanks blank innerBlank =>
    simp only [List.append_assoc]
    refine blank.endsNumeral ?_
    cases first with
    | false => exact endsNumeral_separator _
    | true => exact innerBlank.endsNumeral (stop rfl)

theorem KeyText.endsNumeral {first : Bool} {field : Field} {lead : List Char}
    (key : KeyText first field lead) (rest : List Char) : EndsNumeral (lead ++ rest) := by
  cases key with
  | colon next name colonBlank valueBlank =>
    obtain ⟨more, rfl⟩ := name.lead
    rw [List.append_assoc]
    refine next.endsNumeral fun _ c member => ?_
    cases Option.mem_some.mp member
    decide

theorem readMembers_minus {field : Field} (real : field.isReal) {draft : Draft}
    (absent : draft.has field = false) {first : Bool} {lead : List Char}
    (key : KeyText first field lead) (room : Nat) {c : Char} (digit : c.isDigit)
    (cs : List Char) :
    readMembers (room + 1) draft first (lead ++ '-' :: c :: cs) =
      (readMembers (room + 1) draft first (lead ++ c :: cs)).map
        (Prod.map (Draft.negate field) id) := by
  cases key with
  | @colon _ _ _ after next name colonBlank valueBlank =>
    cases next with
    | blanks blank innerBlank =>
      simp only [List.append_assoc, List.cons_append, readMembers_key absent blank innerBlank name
        colonBlank, read_minus real draft digit valueBlank]
      cases read : draft.read field (after ++ c :: cs) with
      | error fault => rfl
      | ok found =>
        have known : found.1.has field := by simp [has_read read]
        exact readMembers_negate known room false found.2

theorem readElements_minus {field : Field} (real : field.isReal) (draft : Draft) {count : Nat}
    {lead : List Char} (comma : CommaText (count == 0) lead) {fields : List Field}
    (behind : field ∉ fields) {c : Char} (digit : c.isDigit) (cs : List Char) :
    readElements draft (lead ++ '-' :: c :: cs) count (field :: fields) =
      (readElements draft (lead ++ c :: cs) count (field :: fields)).map
        (Prod.map (Draft.negate field) id) := by
  have inside : c ≠ ']' := by
    rintro rfl
    contradiction
  have minus := read_minus real draft digit blank_nil cs
  simp only [List.nil_append] at minus
  cases comma with
  | blanks blank innerBlank =>
    simp only [List.append_assoc,
      readElements_value draft blank innerBlank (isSpace_digit digit) inside,
      readElements_value draft blank innerBlank (c := '-') (by decide) (by decide), minus]
    cases draft.read field (c :: cs) with
    | error fault => rfl
    | ok found => exact readElements_negate behind found.1 found.2 (count + 1)

theorem readObject_minus {t : Tick} {field : Field} (real : field.isReal) {body lead : List Char}
    {order : List Field} (members : Items (MemberText t) true order body)
    (once : (field :: order).Nodup) (key : KeyText order.isEmpty field lead) {c : Char}
    (digit : c.isDigit) (cs : List Char) :
    readObject (body ++ (lead ++ '-' :: c :: cs)) =
      (readObject (body ++ (lead ++ c :: cs))).map (Prod.map (negate field) id) := by
  have few : (field :: order).length ≤ Field.all.length :=
    once.length_le_of_subset fun f _ => mem_all f
  obtain ⟨room, count⟩ := Nat.exists_eq_add_of_le few
  obtain ⟨fresh, others⟩ := List.nodup_cons.mp once
  -- The members in front leave room for the number at least.
  have total : Field.all.length = order.length + (room + 1) := by
    rw [count, List.length_cons, Nat.add_assoc, Nat.add_comm 1 room]
  have absent : ∀ f ∈ order, (fun _ => false : Field → Bool) f = false := fun _ _ => rfl
  have unread : (Draft.part t fun f => false || decide (f ∈ order)).has field = false := by
    simp [has_part, fresh]
  have reach (value : List Char) :=
    readMembers_passes members others absent (room + 1) (key.endsNumeral value)
  simp only [readObject_closed, empty_part t, total, reach, Bool.true_and, ← closed_negate]
  rw [readMembers_minus real unread key room digit cs]

theorem readList_minus {t : Tick} {field : Field} (real : field.isReal) {body lead : List Char}
    {fields more : List Field} (elements : Items (ElementText t) true fields body)
    (place : Field.all = fields ++ field :: more) (comma : CommaText fields.isEmpty lead) {c : Char}
    (digit : c.isDigit) (cs : List Char) :
    readList (body ++ (lead ++ '-' :: c :: cs)) =
      (readList (body ++ (lead ++ c :: cs))).map (Prod.map (negate field) id) := by
  have once := all_nodup
  rw [place] at once
  have behind : field ∉ more := (List.nodup_cons.mp (List.nodup_append.mp once).2.1).1
  -- The list begins with the time, so a number is never its first element.
  have later : fields ≠ [] := by
    rintro rfl
    cases (List.cons.inj place).1
    contradiction
  have stop (value : List Char) : EndsNumeral (lead ++ value) :=
    comma.endsNumeral fun empty => absurd (List.isEmpty_iff.mp empty) later
  have counted : fields.isEmpty = (0 + fields.length == 0) := by cases fields <;> simp
  have first : Items (ElementText t) (0 == 0) fields body := elements
  have reach (value : List Char) :=
    readElements_passes first (fun _ => false) (field :: more) (stop value)
  rw [counted] at comma
  simp only [readList_closed, empty_part t, place, reach, ← closed_negate]
  rw [readElements_minus real _ comma behind digit cs]

theorem readTick_minus {field : Field} (real : field.isReal) {front : List Char}
    (upTo : UpTo field front) {c : Char} (digit : c.isDigit) (cs : List Char) :
    readTick (front ++ '-' :: c :: cs) =
      (readTick (front ++ c :: cs)).map (Prod.map (negate field) id) := by
  cases upTo with
  | object frontBlank members once key =>
    have object := readObject_minus real members once key digit cs
    simp only [List.append_assoc, List.cons_append, readTick,
      skipSpace_gap frontBlank (c := '\x7b') (by decide)]
    exact object
  | list frontBlank elements place comma =>
    have list := readList_minus real elements place comma digit cs
    simp only [List.append_assoc, List.cons_append, readTick,
      skipSpace_gap frontBlank (c := '[') (by decide)]
    exact list

/-- A number that is written with a minus gives the tick with the opposite of it, or the same fault. -/
theorem ofWireText_minus {field : Field} (real : field.isReal) {front : List Char}
    (upTo : UpTo field front) {c : Char} (digit : c.isDigit) (cs : List Char) :
    ofWireText (front ++ '-' :: c :: cs) =
      (ofWireText (front ++ c :: cs)).map (negate field) := by
  rw [ofWireText, ofWireText, readTick_minus real upTo digit]
  rcases readTick (front ++ c :: cs) with fault | ⟨t, rest⟩
  · rfl
  · simp only [Except.map, bind, Except.bind, Prod.map_apply, id_eq]
    cases Json.finish rest <;> rfl

theorem Items.split {item : Field → List Char → Prop} {first : Bool} {order : List Field}
    {body : List Char} (items : Items item first order body) {field : Field}
    (inside : field ∈ order) :
    ∃ fields more front gap part back, order = fields ++ field :: more ∧
      Items item first fields front ∧ Blank gap ∧ item field part ∧
      body = front ++ (gap ++ (separator (first && fields.isEmpty) ++ (part ++ back))) := by
  induction items with
  | none => cases inside
  | @next first gap text behind head others blank stated items ih =>
    by_cases here : field = head
    · subst here
      exact ⟨[], others, [], gap, text, behind, rfl, .none, blank, stated, by simp⟩
    · obtain ⟨fields, more, front, inner, part, back, rfl, earlier, innerBlank, found, rfl⟩ :=
        ih ((List.mem_cons.mp inside).resolve_left here)
      exact ⟨head :: fields, more, _, inner, part, back, rfl, .next blank stated earlier, innerBlank,
        found, by simp⟩

theorem Payload.upTo {t : Tick} {text : List Char} (payload : Payload t text) (field : Field) :
    ∃ front part back, UpTo field front ∧ ValueText t field part ∧
      text = front ++ (part ++ back) := by
  cases payload with
  | @object front body last back order frontBlank members once blank backBlank =>
    obtain ⟨fields, more, before, gap, part, behind, rfl, earlier, gapBlank, found, rfl⟩ :=
      members.split (once.mem_iff.mpr (mem_all field))
    cases found with
    | @pair inner key beforeColon value innerBlank name colonBlank element =>
      cases element with
      | @value after text valueBlank value =>
        have nodup : (field :: fields).Nodup := by
          have apart := List.nodup_append.mp (once.nodup_iff.mpr all_nodup)
          refine List.nodup_cons.mpr ⟨fun member => ?_, apart.1⟩
          exact apart.2.2 field member field (List.mem_cons_self ..) rfl
        have next : CommaText fields.isEmpty _ := .blanks gapBlank innerBlank
        exact ⟨_, text, behind ++ (last ++ '\x7d' :: back),
          .object frontBlank earlier nodup (.colon next name colonBlank valueBlank), value, by simp⟩
  | @list front body last back frontBlank elements blank backBlank =>
    obtain ⟨fields, more, before, gap, part, behind, place, earlier, gapBlank, found, rfl⟩ :=
      elements.split (mem_all field)
    cases found with
    | @value inner text innerBlank value =>
      have comma : CommaText fields.isEmpty _ := .blanks gapBlank innerBlank
      exact ⟨_, text, behind ++ (last ++ ']' :: back), .list frontBlank earlier place comma, value,
        by simp⟩

theorem quoted_name (field : Field) :
    QuotedText ('"' :: (field.name.toList ++ ['"'])) field.name.toList := by
  have every : field.name.toList.all fun c => c ≠ '"' ∧ c ≠ '\\' ∧ 0x20 ≤ c.toNat := by
    cases field <;> decide
  exact .quotes (.plain fun c inside => of_decide_eq_true (List.all_eq_true.mp every c inside))

theorem toOption_ofWire (cs : List Char) :
    (ofWire (String.ofList cs)).toOption = (ofWireText cs).toOption := by
  rw [ofWire, String.toList_ofList]
  cases ofWireText cs <;> rfl

theorem literal_of_value {t : Tick} {field : Field} (real : field.isReal) {part : List Char}
    (value : ValueText t field part) : ∃ l : Literal, l.text = part := by
  cases field with
  | timestamp | symbol => contradiction
  | price | volume =>
    obtain ⟨l, _, same, _⟩ := value
    exact ⟨l, same⟩

/-- The numbers of a decoded tick are finite, so none of them is written as a null. Scaling ends
    whatever the digits and the exponent are. Of a literal and the same one behind a minus, in the
    place of a number of a payload, both are taken or none is, and the ticks differ in the sign bit of
    that number. -/
theorem ofWire_numbers :
    (∀ payload t, ofWire payload = .ok t → t.price.isFinite ∧ t.volume.isFinite ∧
      ∃ members, Json.ofText t.wire.toList = .ok (.object members) ∧ ∀ m ∈ members, m.2 ≠ .null) ∧
    (∀ significand ≤ Json.wordLimit, ∀ exponent,
      Json.scaleTurns 3 (Binary64.ofNat significand) exponent =
        some (Json.scaled significand exponent) ∧
      ∀ code, Json.scaled significand exponent = some code → code < Binary64.infinityCode) ∧
    ∀ field : Field, field.isReal →
      (∀ payload t, ofWire payload = .ok t → ∃ front back, ∃ l : Literal, UpTo field front ∧
        ValueText t field l.text ∧ payload.toList = front ++ (l.text ++ back)) ∧
      ∀ front, UpTo field front → ∀ (l : Literal) back,
        (ofWire (String.ofList (front ++ '-' :: (l.unsignedText ++ back)))).toOption =
          (ofWire (String.ofList (front ++ (l.unsignedText ++ back)))).toOption.map
            (negate field) := by
  refine ⟨?_, ?_, ?_⟩
  · intro payload t decodes
    obtain ⟨price, volume⟩ := finite_of_ofWire decodes
    exact ⟨price, volume, wire_no_null price volume⟩
  · intro significand fits exponent
    exact ⟨Json.scaleTurns_word fits exponent, fun code => Json.scaled_finite fits⟩
  intro field real
  constructor
  · intro payload t decodes
    have read := (ofWireText_ok_iff _ t).mp ((ofWire_ok_iff payload t).mp decodes)
    obtain ⟨front, part, back, upTo, value, text⟩ := read.upTo field
    obtain ⟨l, rfl⟩ := literal_of_value real value
    exact ⟨front, back, l, upTo, value, text⟩
  · intro front upTo l back
    obtain ⟨c, cs, lead, digit⟩ := l.lead
    rw [toOption_ofWire, toOption_ofWire, lead, List.cons_append,
      ofWireText_minus real upTo digit]
    cases ofWireText (front ++ c :: (cs ++ back)) <;> rfl

/-- One more than the greatest word is read as a real number with either sign. -/
theorem ofWire_numbers_beyond_word :
    let front := "\x7b\"price\":".toList
    let digits := "18446744073709551616".toList
    let back := ",\"symbol\":\"A\",\"timestamp_ms\":1,\"volume\":0.5\x7d".toList
    let t : Tick := ⟨1, "A", .ofCode false 0x43f0000000000000, .ofCode false 0x3fe0000000000000⟩
    ofWire (String.ofList (front ++ (digits ++ back))) = .ok t ∧
    (t.price.isFinite ∧ t.volume.isFinite) ∧
    Json.scaleTurns 3 (Binary64.ofNat Json.wordLimit) (-2147483648) = some (some 0) ∧
    (∃ code, Json.scaled Json.wordLimit 288 = some code ∧ code < Binary64.infinityCode) ∧
    UpTo .price front ∧
    ofWire (String.ofList (front ++ '-' :: (digits ++ back))) = .ok (negate .price t) := by
  intro front digits back t
  obtain ⟨finite, scaling, signs⟩ := ofWire_numbers
  have decodes : ofWire (String.ofList (front ++ (digits ++ back))) = .ok t := by decide +kernel
  obtain ⟨price, volume, _⟩ := finite _ t decodes
  have vanished : Json.scaled Json.wordLimit (-2147483648) = some 0 := by decide +kernel
  have turns := (scaling Json.wordLimit (Nat.le_refl _) (-2147483648)).1
  have kept : (Json.scaled Json.wordLimit 288).isSome := by decide +kernel
  obtain ⟨code, large⟩ := Option.isSome_iff_exists.mp kept
  have bound := (scaling Json.wordLimit (Nat.le_refl _) 288).2 code large
  have next : CommaText true [] := .blanks blank_nil blank_nil
  have upTo : UpTo .price front := .object (t := t) blank_nil .none (by simp)
    (.colon next (quoted_name .price) blank_nil blank_nil)
  have run : digits.all Char.isDigit := by decide
  have canonical : digits.head? = some '0' → digits = ['0'] := by decide
  let l : Literal := ⟨false, ⟨digits, by decide, List.all_eq_true.mp run⟩, canonical, .none, .none⟩
  have minus := (signs .price rfl).2 front upTo l back
  have same : l.unsignedText = digits := List.append_nil digits
  rw [same, decodes] at minus
  exact ⟨decodes, ⟨price, volume⟩, turns.trans (congrArg some vanished), ⟨code, large, bound⟩, upTo,
    (toOption_eq_some_iff _ _).mp minus⟩

end TickReplay.Tick
