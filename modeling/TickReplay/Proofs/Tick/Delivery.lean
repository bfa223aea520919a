import TickReplay.Proofs.Feed.Publication
import TickReplay.Proofs.Json.Compact
import TickReplay.Proofs.Tail.Stream
import TickReplay.Proofs.Tick.Load
import TickReplay.Proofs.Tick.Wire

/- From a file to the readers of the feed. What loads is written without a null, and every payload of
   it decodes to a tick with the same instrument and time and with numbers of the same sign, so a
   follower of a replay meets nothing malformed. -/
namespace TickReplay.Tick

open Json (integerText realText reread)

def members (t : Tick) (price volume : Binary64) : List (String × Json) :=
  [(Field.timestamp.name, .number (.integer t.timestamp.toInt)), (Field.symbol.name, .text t.symbol),
   (Field.price.name, .number (.real price)), (Field.volume.name, .number (.real volume))]

theorem wireText_compact (t : Tick) :
    t.wireText = (Json.object (t.members t.price t.volume)).compactText := by
  simp [wireText, memberText, valueText, members, Field.all, Json.compactText, Json.membersText,
    Json.Number.text, List.intercalate]

theorem proper_members {t : Tick} (price : t.price.isFinite) (volume : t.volume.isFinite) :
    Json.Throughout Json.Number.Proper (fun _ => True)
      (.object (t.members t.price t.volume)) := by
  have low : -(half64 : Int) ≤ t.timestamp.toInt := t.timestamp.le_toInt
  have small : t.timestamp.toInt < (half64 : Int) := t.timestamp.toInt_lt
  have word : half64 < word128 := by decide
  have wide : t.timestamp.toInt.natAbs < word128 := by omega
  exact ⟨trivial, wide, trivial, price, volume, trivial⟩

theorem number_timestamp (t : Int64) :
    Document.number (integerText t.toInt) = .integer t.toInt := by
  have read := Json.readNumeral_integerText t.le_toInt t.toInt_lt Json.endsNumeral_nil
  rw [List.append_nil] at read
  rw [Document.number, read]

theorem number_real {x y : Binary64} (finite : x.isFinite) (back : rereadReal x = some y) :
    Document.number (realText x) = .real y := by
  have read := Json.readNumeral_realText finite Json.endsNumeral_nil
  unfold rereadReal at back
  rw [List.append_nil, Json.rereadNumber] at read
  cases code : reread x.code with
  | none => simp [code] at back
  | some result =>
    rw [code, Option.map_some, Option.some.injEq] at back
    rw [Document.number, read, code, ← back]

/-- The payload of a tick is the compact text of its members, and the numbers of them are what their
    digits are read as. -/
theorem ofText_wireText {t : Tick} {p v : Binary64} (price : t.price.isFinite)
    (volume : t.volume.isFinite) (priceRead : rereadReal t.price = some p)
    (volumeRead : rereadReal t.volume = some v) :
    Json.ofText t.wireText = .ok (.object (t.members p v)) := by
  rw [Document.ofText_value, wireText_compact, Json.ofText_compactText (proper_members price volume)]
  simp [Except.map, members, Json.document, Json.memberDocuments, Document.value,
    Document.memberValues, Json.Number.text, number_timestamp, number_real price priceRead,
    number_real volume volumeRead]

structure Survives (x y : Binary64) : Prop where
  finite : y.isFinite
  negative_eq : y.negative = x.negative
  zero_iff : y.isZero ↔ x.isZero

theorem rereadReal_survives {x : Binary64} (finite : x.isFinite) :
    ∃ y, rereadReal x = some y ∧ Survives x y := by
  have inside : x.code < Binary64.infinityCode := of_decide_eq_true finite
  by_cases zero : x.code = 0
  · have back : reread 0 = some 0 := by decide +kernel
    refine ⟨.ofCode x.negative 0, ?_, ?_, rfl, ?_⟩
    · rw [rereadReal, zero, back]
      rfl
    · rfl
    · simp [Binary64.isZero, Binary64.ofCode, zero]
  · obtain ⟨code, back, positive, bound⟩ := Json.reread_kept zero inside
    have same : (Binary64.ofCode x.negative code).code = code := Nat.min_eq_left (Nat.le_of_lt bound)
    refine ⟨.ofCode x.negative code, ?_, ?_, rfl, ?_⟩
    · rw [rereadReal, back]
      rfl
    · rw [Binary64.isFinite, same]
      exact decide_eq_true bound
    · rw [Binary64.isZero, Binary64.isZero, same, beq_iff_eq, beq_iff_eq]
      omega

theorem wire_no_null {t : Tick} (price : t.price.isFinite) (volume : t.volume.isFinite) :
    ∃ members, Json.ofText t.wire.toList = .ok (.object members) ∧ ∀ m ∈ members, m.2 ≠ .null := by
  obtain ⟨p, priceRead, _⟩ := rereadReal_survives price
  obtain ⟨v, volumeRead, _⟩ := rereadReal_survives volume
  refine ⟨t.members p v, ?_, ?_⟩
  · rw [wire, String.toList_ofList]
    exact ofText_wireText price volume priceRead volumeRead
  · intro member inMembers
    simp only [members, List.mem_cons, List.not_mem_nil, or_false] at inMembers
    rcases inMembers with rfl | rfl | rfl | rfl
    all_goals
      intro null
      cases null

/-- What a loaded tick is written as, and what that is read as. -/
structure Delivered (t : Tick) : Prop where
  symbol_some : t.symbol ≠ ""
  price_finite : t.price.isFinite
  volume_finite : t.volume.isFinite
  no_null : ∃ members, Json.ofText t.wire.toList = .ok (.object members) ∧ ∀ m ∈ members, m.2 ≠ .null
  decoded : ∃ u, ofWire t.wire = .ok u ∧ u.timestamp = t.timestamp ∧ u.symbol = t.symbol ∧
    Survives t.price u.price ∧ Survives t.volume u.volume

theorem delivered_of_finite {t : Tick} (symbol : t.symbol ≠ "") (price : t.price.isFinite)
    (volume : t.volume.isFinite) : Delivered t := by
  obtain ⟨p, priceRead, priceSurvives⟩ := rereadReal_survives price
  obtain ⟨v, volumeRead, volumeSurvives⟩ := rereadReal_survives volume
  refine ⟨symbol, price, volume, wire_no_null price volume,
    ⟨{ t with price := p, volume := v }, ?_, rfl, rfl, priceSurvives, volumeSurvives⟩⟩
  rw [ofWire_wire_ok_iff price volume, rereadTick, priceRead, volumeRead]

theorem holds_of_loaded {bytes : List UInt8} {ticks : List Tick} (loaded : ofBytes bytes = .ok ticks)
    {t : Tick} (member : t ∈ ticks) : ∃ columns texts, ∀ field, Holds columns texts t field := by
  rw [ofBytes_eq, bind_ok_iff] at loaded
  obtain ⟨columns, _, rows⟩ := loaded
  obtain ⟨lengths, reads⟩ := (rows_iff _ _ _).mp rows
  obtain ⟨i, inside, here⟩ := List.mem_iff_getElem.mp member
  have row := List.getElem?_eq_getElem (l := dataRows bytes) (i := i) (by omega)
  have tick : ticks[i]? = some t := by rw [List.getElem?_eq_getElem inside, here]
  cases reads i _ t row tick with
  | tick written holds => exact ⟨columns, _, holds⟩

theorem delivered_of_loaded {find : Lookup} {path : String} {ticks : List Tick}
    (loaded : load find path = .ok ticks) {t : Tick} (member : t ∈ ticks) : Delivered t := by
  obtain ⟨bytes, read⟩ : ∃ bytes, ofBytes bytes = .ok ticks := by
    unfold load at loaded
    split at loaded
    · exact ⟨_, loaded⟩
    all_goals cases loaded
  obtain ⟨columns, texts, holds⟩ := holds_of_loaded read member
  obtain ⟨_, _, _, price⟩ := holds .price
  obtain ⟨_, _, _, volume⟩ := holds .volume
  exact delivered_of_finite (holds .symbol).2 price volume

end TickReplay.Tick

namespace TickReplay.Feed

theorem sent_wire {conditions : Conditions} {warmup delay : Duration} {ticks : List Tick}
    {scene : Scene} {payload : String} {time : Nat}
    (sent : .sent payload time ∈ (replay conditions warmup delay ticks scene).trace) :
    ∃ t ∈ ticks, payload = t.wire := by
  have publication := (warmAndBroadcast_publication conditions warmup delay ticks scene).1
  have inside : .sent payload time ∈ (warmAndBroadcast conditions warmup delay ticks scene).trace := by
    simpa [replay, Played.after, Played.close] using sent
  have act : .send payload ∈ acts (warmAndBroadcast conditions warmup delay ticks scene).trace :=
    List.mem_filterMap.mpr ⟨_, inside, rfl⟩
  rw [publication.acts_eq] at act
  rcases List.mem_append.mp act with send | refusal
  · obtain ⟨t, first, same⟩ := List.mem_map.mp send
    cases same
    exact ⟨t, List.mem_of_mem_take first, rfl⟩
  · unfold Ending.refusal at refusal
    split at refusal <;> simp at refusal

end TickReplay.Feed

namespace TickReplay.Tail

theorem output_delivered {t : Tick} (delivered : t.Delivered) (options : Options)
    (error : MessageError) :
    options.output [Utf8.encode t.wire.toList] ≠ .malformed error := by
  obtain ⟨u, back, _⟩ := delivered.decoded
  have read : decode [Utf8.encode t.wire.toList] = .ok u := by
    rw [Tick.ofWire_ok_iff] at back
    simp only [decode, Utf8.decode_encode, back]
  rw [Options.output, read]
  dsimp only
  split <;> simp

theorem follow_outputs (options : Options) (printed : Nat) (messages : List Message) :
    ∀ output ∈ (follow options printed messages).1, ∃ message ∈ messages,
      output = options.output message := by
  intro output member
  obtain ⟨seen, inside, outputs⟩ := follow_seen options printed messages
  rw [outputs] at member
  obtain ⟨message, shown, same⟩ := List.mem_map.mp member
  exact ⟨message, inside.subset shown, same.symm⟩

/-- Nothing that a replay of a loaded file sends is lost on its readers. -/
theorem load_delivers {find : Lookup} {path : String} {ticks : List Tick}
    (loaded : Tick.load find path = .ok ticks) :
    (∀ t ∈ ticks, t.Delivered) ∧
    ∀ conditions warmup delay scene options printed messages,
      (∀ message ∈ messages, ∃ payload time,
        .sent payload time ∈ (Feed.replay conditions warmup delay ticks scene).trace ∧
        message = [Utf8.encode payload.toList]) →
      ∀ error, .malformed error ∉ (follow options printed messages).1 := by
  have delivered : ∀ t ∈ ticks, t.Delivered := fun t => Tick.delivered_of_loaded loaded
  refine ⟨delivered, ?_⟩
  intro conditions warmup delay scene options printed messages sent error member
  obtain ⟨message, inMessages, same⟩ := follow_outputs options printed messages _ member
  obtain ⟨payload, time, happened, rfl⟩ := sent message inMessages
  obtain ⟨t, inTicks, rfl⟩ := Feed.sent_wire happened
  exact output_delivered (delivered t inTicks) options error same.symm

/- The greatest price, the least volume below zero and a symbol that has to be escaped. -/
def extremeFile : List UInt8 := Utf8.encode
  "timestamp_ms,symbol,price,volume\n1,\"A\"\"\\\t\",1.7976931348623157e308,-5e-324\n".toList

theorem load_delivers_extremes :
    let find : Lookup := fun _ => .ok (.file extremeFile)
    let t : Tick := ⟨1, "A\"\\\t", .ofCode false (Binary64.infinityCode - 1), .ofCode true 1⟩
    Tick.load find "ticks.csv" = .ok [t] ∧ t.Delivered := by
  intro find t
  have loaded : Tick.load find "ticks.csv" = .ok [t] := by decide +kernel
  exact ⟨loaded, (load_delivers loaded).1 t (List.mem_singleton.mpr rfl)⟩

end TickReplay.Tail
