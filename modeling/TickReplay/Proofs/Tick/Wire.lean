import TickReplay.Proofs.Json.RealText
import TickReplay.Proofs.Json.Text
import TickReplay.Tick.Basic
import TickReplay.Tick.Schema

/- What a payload decodes to. The timestamp and the symbol come back as they were; a price or a
   volume comes back as its digits scale, so the round trip is exact for the magnitudes that their own
   digits scale back to, and for no others. -/
namespace TickReplay.Tick

open Json (Fault EndsNumeral skipSpace isSpace stringText integerText realText reread rereadNumber)

theorem skipSpace_cons {c : Char} (shown : isSpace c = false) (cs : List Char) :
    skipSpace (c :: cs) = c :: cs := by
  simp [skipSpace, shown]

theorem isSpace_digit {c : Char} (digit : c.isDigit) : isSpace c = false := by
  have other : ∀ d : Char, d.isDigit = false → (c == d) = false := by
    intro d noDigit
    apply beq_false_of_ne
    intro same
    rw [same, noDigit] at digit
    contradiction
  simp [isSpace, other]

def separator (first : Bool) : List Char := if first then [] else [',']

theorem endsNumeral_separator (rest : List Char) : EndsNumeral (separator false ++ rest) := by
  intro c member
  cases Option.mem_some.mp member
  decide

theorem endsNumeral_brace : EndsNumeral ['\x7d'] := by
  intro c member
  cases Option.mem_some.mp member
  decide

theorem readNumber_numeral (wanted : String) {c : Char} {cs : List Char}
    (numeral : Json.startsNumeral c) : readNumber wanted (c :: cs) = Json.readNumeral (c :: cs) := by
  have shown : isSpace c = false := by
    rcases Bool.or_eq_true_iff.mp numeral with minus | digit
    · rw [eq_of_beq minus]
      decide
    · exact isSpace_digit digit
  simp [readNumber, skipSpace_cons shown, numeral]

theorem integerText_lead (n : Int) :
    ∃ c cs, integerText n = c :: cs ∧ Json.startsNumeral c := by
  have digits := Json.toDigits_digits n.natAbs
  cases front : Nat.toDigits 10 n.natAbs with
  | nil => simp at front
  | cons c cs =>
    rw [front] at digits
    have digit : c.isDigit := digits c (by simp)
    simp only [integerText, front]
    split
    · exact ⟨'-', _, rfl, by decide⟩
    · exact ⟨c, _, rfl, by simp [Json.startsNumeral, digit]⟩

theorem realText_lead {x : Binary64} (finite : x.isFinite) :
    ∃ c cs, realText x = c :: cs ∧ Json.startsNumeral c := by
  obtain ⟨c, cs, front, digit⟩ := Json.magnitudeText_lead x.code
  simp only [realText, finite, front, ↓reduceIte]
  split
  · exact ⟨'-', _, rfl, by decide⟩
  · exact ⟨c, _, rfl, by simp [Json.startsNumeral, digit]⟩

theorem readTimestamp_integerText (t : Int64) {rest : List Char} (stop : EndsNumeral rest) :
    readTimestamp (integerText t.toInt ++ rest) = .ok (t, rest) := by
  have low : -(half64 : Int) ≤ t.toInt := t.le_toInt
  have small : t.toInt < (half64 : Int) := t.toInt_lt
  have read := Json.readNumeral_integerText low small stop
  obtain ⟨c, cs, front, numeral⟩ := integerText_lead t.toInt
  rw [front, List.cons_append] at read ⊢
  simp only [readTimestamp, readNumber_numeral _ numeral, read]
  simp [bind, Except.bind, pure, Except.pure, small]

def rereadReal (x : Binary64) : Option Binary64 := (reread x.code).map (Binary64.ofCode x.negative)

theorem readReal_realText {x : Binary64} (finite : x.isFinite) {rest : List Char}
    (stop : EndsNumeral rest) :
    readReal (realText x ++ rest) =
      match rereadReal x with
      | some y => .ok (y, rest)
      | none => .error (.here .numberOutOfRange rest) := by
  have read := Json.readNumeral_realText finite stop
  obtain ⟨c, cs, front, numeral⟩ := realText_lead finite
  rw [front, List.cons_append] at read ⊢
  simp only [readReal, readNumber_numeral _ numeral, read, rereadNumber, rereadReal]
  cases reread x.code <;> rfl

theorem readSymbol_stringText (symbol rest : List Char) :
    readSymbol (stringText symbol ++ rest) = .ok (String.ofList symbol, rest) := by
  have text : stringText symbol ++ rest = '"' :: (Json.escape symbol ++ '"' :: rest) := by
    simp [stringText]
  rw [text, readSymbol, skipSpace_cons (by decide)]
  simp [Json.readText_escape, Except.map]

theorem nextKey_stringText (first : Bool) (name rest : List Char) :
    Json.nextKey first (separator first ++ (stringText name ++ rest)) = .ok (some (name, rest)) := by
  have text : stringText name ++ rest = '"' :: (Json.escape name ++ '"' :: rest) := by
    simp [stringText]
  have key : Json.readKey '"' (Json.escape name ++ '"' :: rest) = .ok (some (name, rest)) := by
    simp [Json.readKey, Json.readText_escape, Except.map]
  have quote : skipSpace ('"' :: (Json.escape name ++ '"' :: rest)) = _ :=
    skipSpace_cons (by decide) _
  rw [text]
  cases first with
  | true => simp [separator, Json.nextKey, quote, key]
  | false => simp [separator, Json.nextKey, skipSpace_cons (c := ',') (by decide), quote, key]

theorem named_name (field : Field) : Field.named? field.name = some field := by
  cases field <;> decide

theorem readMembers_memberText (room : Nat) (draft : Draft) (first : Bool) {field : Field}
    (absent : draft.has field = false) (value rest : List Char) :
    readMembers (room + 1) draft first
        (separator first ++ (memberText field value ++ rest)) =
      match draft.read field (value ++ rest) with
      | .error fault => .error (.placed fault)
      | .ok (draft, rest) => readMembers room draft false rest := by
  have key := nextKey_stringText first field.name.toList (':' :: (value ++ rest))
  have colon : Json.colon (':' :: (value ++ rest)) = .ok (value ++ rest) := by
    simp [Json.colon, skipSpace_cons (c := ':') (by decide)]
  have text : memberText field value ++ rest =
      stringText field.name.toList ++ ':' :: (value ++ rest) := by
    simp [memberText]
  rw [text, readMembers, key]
  simp only [String.ofList_toList, named_name, absent, colon, bind, Except.bind]
  rfl

theorem readMembers_brace (draft : Draft) :
    readMembers 0 draft false ['\x7d'] = .ok (draft, ['\x7d']) := by
  have none : Json.nextKey false ['\x7d'] = .ok none := by
    simp [Json.nextKey, skipSpace_cons (c := '\x7d') (by decide)]
  rw [readMembers, none]

def membersText (t : Tick) : List Char :=
  separator true ++ (memberText .timestamp (t.valueText .timestamp) ++
  (separator false ++ (memberText .symbol (t.valueText .symbol) ++
  (separator false ++ (memberText .price (t.valueText .price) ++
  (separator false ++ (memberText .volume (t.valueText .volume) ++ ['\x7d'])))))))

theorem wireText_eq (t : Tick) : t.wireText = '\x7b' :: membersText t := by
  simp [wireText, membersText, Field.all, separator, List.intercalate]

def rereadTick (t : Tick) : Option Tick :=
  match rereadReal t.price, rereadReal t.volume with
  | some price, some volume => some { t with price, volume }
  | _, _ => none

def Draft.ofFront (t : Tick) : Draft := { timestamp := some t.timestamp, symbol := some t.symbol }

theorem readMembers_front (t : Tick) :
    readMembers 4 {} true (membersText t) =
      readMembers 2 (.ofFront t) false
        (separator false ++ (memberText .price (t.valueText .price) ++
        (separator false ++ (memberText .volume (t.valueText .volume) ++ ['\x7d'])))) := by
  have timestamp : ∀ rest, Draft.read {} .timestamp
      (t.valueText .timestamp ++ (separator false ++ rest)) =
        .ok ({ timestamp := some t.timestamp }, separator false ++ rest) := by
    intro rest
    simp only [Draft.read, valueText]
    rw [readTimestamp_integerText t.timestamp (endsNumeral_separator rest)]
    rfl
  have symbol : ∀ rest, Draft.read { timestamp := some t.timestamp } .symbol
      (t.valueText .symbol ++ (separator false ++ rest)) =
        .ok (.ofFront t, separator false ++ rest) := by
    intro rest
    simp only [Draft.read, valueText, readSymbol_stringText, String.ofList_toList]
    rfl
  rw [membersText, readMembers_memberText 3 {} true rfl, timestamp]
  dsimp only
  rw [readMembers_memberText 2 _ false rfl, symbol]

theorem read_price {t : Tick} (finite : t.price.isFinite) (draft : Draft) (rest : List Char) :
    draft.read .price (t.valueText .price ++ (separator false ++ rest)) =
      match rereadReal t.price with
      | some y => .ok ({ draft with price := some y }, separator false ++ rest)
      | none => .error (.here .numberOutOfRange (separator false ++ rest)) := by
  simp only [Draft.read, valueText]
  rw [readReal_realText finite (endsNumeral_separator rest)]
  cases rereadReal t.price <;> rfl

theorem read_volume {t : Tick} (finite : t.volume.isFinite) (draft : Draft) :
    draft.read .volume (t.valueText .volume ++ ['\x7d']) =
      match rereadReal t.volume with
      | some y => .ok ({ draft with volume := some y }, ['\x7d'])
      | none => .error (.here .numberOutOfRange ['\x7d']) := by
  simp only [Draft.read, valueText]
  rw [readReal_realText finite endsNumeral_brace]
  cases rereadReal t.volume <;> rfl

theorem readMembers_accepted {t : Tick} {p v : Binary64} (price : t.price.isFinite)
    (volume : t.volume.isFinite) (priceRead : rereadReal t.price = some p)
    (volumeRead : rereadReal t.volume = some v) :
    readMembers 4 {} true (membersText t) =
      .ok ({ Draft.ofFront t with price := some p, volume := some v }, ['\x7d']) := by
  rw [readMembers_front, readMembers_memberText 1 _ false rfl, read_price price, priceRead]
  dsimp only
  rw [readMembers_memberText 0 _ false rfl, read_volume volume, volumeRead]
  exact readMembers_brace _

theorem readMembers_refused {t : Tick} (price : t.price.isFinite) (volume : t.volume.isFinite)
    (overflow : rereadReal t.price = none ∨ rereadReal t.volume = none) :
    ∃ rest, readMembers 4 {} true (membersText t) =
      .error (.placed (.here .numberOutOfRange rest)) := by
  rw [readMembers_front, readMembers_memberText 1 _ false rfl, read_price price]
  -- The price is read first: a volume is only met behind a price that comes back.
  cases priceRead : rereadReal t.price with
  | none => exact ⟨_, rfl⟩
  | some p =>
    have volumeRead : rereadReal t.volume = none := by simpa [priceRead] using overflow
    dsimp only
    rw [readMembers_memberText 0 _ false rfl, read_volume volume, volumeRead]
    exact ⟨_, rfl⟩

theorem readTick_brace (cs : List Char) : readTick ('\x7b' :: cs) = readObject cs := by
  have shown : skipSpace ('\x7b' :: cs) = '\x7b' :: cs := skipSpace_cons (by decide) cs
  simp [readTick, shown]

theorem ofWireText_wireText {t : Tick} (price : t.price.isFinite) (volume : t.volume.isFinite) :
    match rereadTick t with
    | some u => ofWireText t.wireText = .ok u
    | none => ∃ rest, ofWireText t.wireText = .error (.here .numberOutOfRange rest) := by
  have refused : rereadReal t.price = none ∨ rereadReal t.volume = none →
      ∃ rest, ofWireText t.wireText = .error (.here .numberOutOfRange rest) := by
    intro overflow
    obtain ⟨rest, read⟩ := readMembers_refused price volume overflow
    have four : Field.all.length = 4 := rfl
    refine ⟨rest, ?_⟩
    rw [ofWireText, wireText_eq, readTick_brace, readObject, four, read]
    rfl
  cases priceRead : rereadReal t.price with
  | none => simpa [rereadTick, priceRead] using refused (.inl priceRead)
  | some p =>
    cases volumeRead : rereadReal t.volume with
    | none => simpa [rereadTick, priceRead, volumeRead] using refused (.inr volumeRead)
    | some v =>
      have read := readMembers_accepted price volume priceRead volumeRead
      have close : Json.closeObject ['\x7d'] = .ok [] := by
        simp [Json.closeObject, skipSpace_cons (c := '\x7d') (by decide)]
      have four : Field.all.length = 4 := rfl
      simp only [rereadTick, priceRead, volumeRead]
      rw [ofWireText, wireText_eq, readTick_brace, readObject, four, read]
      simp only [bind, Except.bind, pure, Except.pure, Draft.complete, Draft.ofFront, close, Except.map]
      rfl

theorem ofWire_ok_iff (payload : String) (t : Tick) :
    ofWire payload = .ok t ↔ ofWireText payload.toList = .ok t := by
  rw [ofWire]
  cases ofWireText payload.toList with
  | ok u => simp only [Except.ok.injEq]
  | error fault => exact ⟨nofun, nofun⟩

theorem ofWire_wire_ok_iff {t : Tick} (price : t.price.isFinite) (volume : t.volume.isFinite)
    (u : Tick) : ofWire t.wire = .ok u ↔ rereadTick t = some u := by
  have read := ofWireText_wireText price volume
  rw [ofWire_ok_iff, wire, String.toList_ofList]
  cases back : rereadTick t with
  | some v =>
    simp only [back] at read
    rw [read, Except.ok.injEq, Option.some.injEq]
  | none =>
    simp only [back] at read
    obtain ⟨rest, refused⟩ := read
    rw [refused]
    exact ⟨nofun, nofun⟩

theorem rereadReal_self_iff {x : Binary64} (finite : x.isFinite) :
    rereadReal x = some x ↔ reread x.code = some x.code := by
  have inside : x.code < Binary64.infinityCode := of_decide_eq_true finite
  unfold rereadReal
  cases reread x.code with
  | none => exact ⟨nofun, nofun⟩
  | some code =>
    simp only [Option.map_some, Option.some.injEq]
    constructor
    · intro same
      have codes : min code Binary64.infinityCode = x.code := congrArg Binary64.code same
      omega
    · intro same
      subst code
      cases x
      simp only [Binary64.ofCode, Binary64.mk.injEq, true_and]
      exact Nat.min_eq_left (Nat.le_of_lt inside)

theorem rereadTick_self_iff {t : Tick} (price : t.price.isFinite) (volume : t.volume.isFinite) :
    rereadTick t = some t ↔
      reread t.price.code = some t.price.code ∧ reread t.volume.code = some t.volume.code := by
  rw [← rereadReal_self_iff price, ← rereadReal_self_iff volume]
  cases t with
  | mk timestamp symbol p v =>
    unfold rereadTick
    cases rereadReal p <;> cases rereadReal v <;> simp

theorem rereadTick_front {t u : Tick} (back : rereadTick t = some u) :
    u.timestamp = t.timestamp ∧ u.symbol = t.symbol := by
  unfold rereadTick at back
  split at back
  · cases Option.some.inj back
    exact ⟨rfl, rfl⟩
  · contradiction

/-- A payload never changes the timestamp or the symbol. It gives back the whole tick exactly when the
    digits of both numbers scale back to them, and otherwise the tick of the scaled numbers. -/
theorem ofWire_wire {t : Tick} (price : t.price.isFinite) (volume : t.volume.isFinite) :
    (ofWire t.wire = .ok t ↔
      reread t.price.code = some t.price.code ∧ reread t.volume.code = some t.volume.code) ∧
    (∀ u, ofWire t.wire = .ok u ↔ rereadTick t = some u) ∧
    (∀ u, ofWire t.wire = .ok u → u.timestamp = t.timestamp ∧ u.symbol = t.symbol) := by
  have decoded := ofWire_wire_ok_iff price volume
  refine ⟨(decoded t).trans (rereadTick_self_iff price volume), decoded, ?_⟩
  intro u back
  exact rereadTick_front ((decoded u).mp back)

/-- The sum of 0.1 and 0.2 needs seventeen digits and comes back. -/
theorem ofWire_wire_seventeen_digits :
    let t : Tick := ⟨-5, "BRK.B\n\"日本\"", .ofCode false 0x3fd3333333333334, .ofCode true 1⟩
    t.price.isFinite ∧ t.volume.isFinite ∧ ofWire t.wire = .ok t := by
  intro t
  have price : t.price.isFinite := by decide
  have volume : t.volume.isFinite := by decide
  exact ⟨price, volume, (ofWire_wire price volume).1.mpr (by decide +kernel)⟩

/-- The largest value below one is written as 0.9999999999999999 and comes back as one. -/
theorem ofWire_wire_below_one :
    let t : Tick := ⟨1, "AAPL", .ofCode false 0x3fefffffffffffff, .ofCode false 0x3ff0000000000000⟩
    t.price.isFinite ∧ t.volume.isFinite ∧
      ofWire t.wire = .ok { t with price := .ofCode false 0x3ff0000000000000 } ∧
      ofWire t.wire ≠ .ok t := by
  decide +kernel

end TickReplay.Tick
