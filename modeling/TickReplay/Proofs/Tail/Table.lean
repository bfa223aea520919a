import TickReplay.Proofs.Decimal.Fixed
import TickReplay.Proofs.Log
import TickReplay.Proofs.Tail.Stream
import TickReplay.Proofs.Tick.Finite

/- What a tail prints. In a row every column is filled up with blanks in front and never cut, and the
   numbers of a decoded tick are shown rounded to four places. A message without a tick leads to one
   line of the log. What is printed in all is what the messages up to the limit print. -/
namespace TickReplay

namespace Tick

/-- A text at the right end of a column. Blanks fill the column up to its width, and a text of more
    characters is written in full. -/
structure RightAligned (width : Nat) (text column : List Char) : Prop where
  blanks : ∃ n, column = List.replicate n ' ' ++ text
  length : column.length = max width text.length

inductive TableRow (timestamp symbol price volume : List Char) : String → Prop where
  | columns {first second third fourth : List Char} (timestamp_right : RightAligned 16 timestamp first)
      (symbol_right : RightAligned 12 symbol second) (price_right : RightAligned 12 price third)
      (volume_right : RightAligned 12 volume fourth) :
      TableRow timestamp symbol price volume (String.ofList (first ++ " | ".toList ++ second ++
        " | ".toList ++ third ++ " | ".toList ++ fourth))

theorem aligned_right (width : Nat) (text : List Char) :
    RightAligned width text (aligned width text) := by
  refine ⟨⟨_, rfl⟩, ?_⟩
  rw [aligned, List.length_append, List.length_replicate]
  omega

theorem row_eq (t : Tick) : t.row = String.ofList (
    aligned 16 (Json.integerText t.timestamp.toInt) ++ " | ".toList ++
      aligned 12 t.symbol.toList ++ " | ".toList ++ aligned 12 (Decimal.fixed 4 t.price) ++
      " | ".toList ++ aligned 12 (Decimal.fixed 4 t.volume)) := by
  simp [row, columnTexts, places, List.intercalate]

theorem integerText_eq (n : Int) : Json.integerText n = (toString n).toList := by
  cases n with
  | ofNat m =>
    have plain : ¬ Int.ofNat m < 0 := by simp
    rw [Json.integerText, if_neg plain, List.nil_append]
    exact String.toList_ofList.symm
  | negSucc m =>
    have below : Int.negSucc m < 0 := Int.negSucc_lt_zero m
    have digits : (Nat.repr (m + 1)).toList = Nat.toDigits 10 (m + 1) := String.toList_ofList
    rw [Json.integerText, if_pos below]
    change _ = ("-" ++ Nat.repr (m + 1)).toList
    rw [String.toList_append, digits]
    rfl

theorem row_text (t : Tick) : TableRow (toString t.timestamp.toInt).toList t.symbol.toList
    (Decimal.fixed 4 t.price) (Decimal.fixed 4 t.volume) t.row := by
  rw [row_eq, integerText_eq]
  exact .columns (aligned_right 16 _) (aligned_right 12 _) (aligned_right 12 _) (aligned_right 12 _)

end Tick

namespace Tail

open Decimal (FixedText fixed shown)

theorem fixed_texts {payload : String} {t : Tick} (decodes : Tick.ofWire payload = .ok t) :
    FixedText 4 t.price (fixed 4 t.price) ∧ FixedText 4 t.volume (fixed 4 t.volume) := by
  obtain ⟨price, volume⟩ := Tick.finite_of_ofWire decodes
  exact ⟨Decimal.fixed_text (by decide) price, Decimal.fixed_text (by decide) volume⟩

/-- The row of a decoded tick shows the tick's numbers rounded to four places, half a unit of the last
    place off at most, and in the order of the numbers. -/
theorem row_shows_rounded {payload : String} {t : Tick} (decodes : Tick.ofWire payload = .ok t) :
    (∀ (options : Options) clock, (∀ symbol ∈ options.symbol, symbol = t.symbol) →
      (options.output [Utf8.encode payload.toList]).text clock = some t.row) ∧
    Tick.TableRow (toString t.timestamp.toInt).toList t.symbol.toList (fixed 4 t.price)
      (fixed 4 t.volume) t.row ∧
    ∀ x, x = t.price ∨ x = t.volume →
      FixedText 4 x (fixed 4 x) ∧ |shown (fixed 4 x) - x.toRat| ≤ 5 / 100000 ∧
      ∀ y : Binary64, y.isFinite →
        (x.toRat ≤ y.toRat → shown (fixed 4 x) ≤ shown (fixed 4 y)) ∧
        (y.toRat ≤ x.toRat → shown (fixed 4 y) ≤ shown (fixed 4 x)) := by
  refine ⟨?_, t.row_text, ?_⟩
  · intro options clock wanted
    have shows_ : Shows options [Utf8.encode payload.toList] (.row t) :=
      .row ⟨payload, rfl, decodes⟩ wanted
    rw [(output_eq_iff options _ _).mpr shows_]
    rfl
  · intro x number
    have finite : x.isFinite := by
      obtain ⟨price, volume⟩ := Tick.finite_of_ofWire decodes
      rcases number with rfl | rfl
      · exact price
      · exact volume
    have positive : 0 < 4 := by decide
    have text := Decimal.fixed_text positive finite
    have near := Decimal.shown_near text
    refine ⟨text, ?_, ?_⟩
    · norm_num at near ⊢
      exact near
    · intro y other
      have otherText := Decimal.fixed_text positive other
      exact ⟨Decimal.shown_le text otherText, Decimal.shown_le otherText text⟩

/-- Half a unit goes to the even digit, and a number right below zero keeps its sign. -/
theorem row_shows_rounded_tie :
    let payload := "[1,\"日本\",0.03125,-0.00001]"
    let t : Tick := ⟨1, "日本", .ofCode false 0x3fa0000000000000, .ofCode true 0x3ee4f8b588e368f1⟩
    Tick.ofWire payload = .ok t ∧
      ((⟨"", none, none⟩ : Options).output [Utf8.encode payload.toList]).text 0 =
        some "               1 |           日本 |       0.0312 |      -0.0000" ∧
      FixedText 4 t.price "0.0312".toList ∧ FixedText 4 t.volume "-0.0000".toList ∧
      shown "-0.0000".toList ≤ shown "0.0312".toList := by
  intro payload t
  have decodes : Tick.ofWire payload = .ok t := by decide +kernel
  obtain ⟨printed, -, numbers⟩ := row_shows_rounded decodes
  have row : t.row = "               1 |           日本 |       0.0312 |      -0.0000" := by
    decide +kernel
  have price : fixed 4 t.price = "0.0312".toList := by decide +kernel
  have volume : fixed 4 t.volume = "-0.0000".toList := by decide +kernel
  obtain ⟨priceText, -, order⟩ := numbers t.price (.inl rfl)
  obtain ⟨volumeText, -, -⟩ := numbers t.volume (.inr rfl)
  have below : t.volume.toRat ≤ t.price.toRat := by
    rw [t.volume.toRat_eq_abs, t.price.toRat_eq_abs]
    exact (neg_nonpos.mpr (abs_nonneg _)).trans (abs_nonneg _)
  have ordered := (order t.volume (by decide)).2 below
  rw [price] at priceText ordered
  rw [volume] at volumeText ordered
  have unfiltered := printed ⟨"", none, none⟩ 0 (by simp)
  rw [row] at unfiltered
  exact ⟨decodes, unfiltered, priceText, volumeText, ordered⟩

def errorText : MessageError → String
  | .multipart =>
    "unexpected multipart message: Message must have only 1 frame to convert to Vec<u8>"
  | .notText fault => s!"payload is not UTF-8: {fault.message}"
  | .schema text fault => s!"payload does not match the tick schema: {fault.message text}"

def warningEntry (error : MessageError) : Log.Entry :=
  ⟨.warn, "tail.malformed", "Skipping payload that does not match the tick schema",
    .object [("error", .text (errorText error))]⟩

/-- What one message prints: nothing if its tick is not wanted, a line of the log if it holds no tick,
    and otherwise a row with the tick's numbers in decimal. -/
inductive Told (options : Options) (clock : Nat) (message : Message) : Option String → Prop where
  | nothing (shows_ : Shows options message .skipped) : Told options clock message none
  | warning {error : MessageError} {line : String}
      (shows_ : Shows options message (.malformed error))
      (holds : clock < word128 → Log.Holds clock (warningEntry error) line) :
      Told options clock message (some line)
  | row {tick : Tick} {price volume : List Char} {text : String}
      (shows_ : Shows options message (.row tick)) (price_text : FixedText 4 tick.price price)
      (volume_text : FixedText 4 tick.volume volume)
      (columns : Tick.TableRow (toString tick.timestamp.toInt).toList tick.symbol.toList price
        volume text) : Told options clock message (some text)

theorem holds_warning {clock : Nat} (fits : clock < word128) (error : MessageError) :
    Log.Holds clock (warningEntry error) ((malformedEntry error).line clock) := by
  have same : malformedEntry error = warningEntry error := by cases error <;> rfl
  rw [same]
  exact Log.holds_line fits ⟨List.pairwise_singleton _ _, trivial, trivial⟩

theorem told_output (options : Options) (clock : Nat) (message : Message) :
    Told options clock message ((options.output message).text clock) := by
  have shows_ := (output_eq_iff options message _).mp rfl
  generalize options.output message = output at shows_ ⊢
  cases output with
  | row tick =>
    have carries : Carries message tick := by
      cases shows_
      assumption
    obtain ⟨payload, rfl, decodes⟩ := carries
    obtain ⟨price, volume⟩ := fixed_texts decodes
    exact .row shows_ price volume tick.row_text
  | malformed error => exact .warning shows_ fun fits => holds_warning fits error
  | skipped => exact .nothing shows_

/-- With a limit of at least one, or none, a tail prints behind its banner what the messages of the
    shortest prefix print that fills the limit, or all of them. It ends by the limit exactly when so
    many rows were printed. A message without a row is never missed, and a filter leaves what is left
    of the plain stream without the rows of other symbols. -/
theorem follow_filters {options : Options} (some_ : ∀ limit ∈ options.limit, 1 ≤ limit)
    (messages : List Message) :
    let outputs := (follow options 0 messages).1
    let ending := (follow options 0 messages).2
    (∀ message output, options.output message = output ↔ Shows options message output) ∧
    (∃ front, Delivered options 0 messages front ending ∧ outputs = front.map options.output ∧
      (∀ clock, transcript options clock messages =
        s!"Connected to {options.endpoint}; streaming ticks..." ::
          (front.mapIdx fun i message => (options.output message).text (clock i)).reduceOption) ∧
      (∀ clock message, Told options clock message ((options.output message).text clock)) ∧
      outputs.filter Output.shown = (follow options.plain 0 front).1.filter options.keeps) ∧
    (ending = .limit ↔ options.limit = some (outputs.countP Output.isRow)) ∧
    (ending = .limit → ∀ later, follow options 0 (messages ++ later) = (outputs, ending)) ∧
    ∀ front message back, messages = front ++ message :: back →
      (options.output message).isRow = false →
        follow options 0 (front ++ back) = (outputs.eraseIdx front.length, ending) := by
  obtain ⟨front, delivered, outputs⟩ := follow_delivered some_ messages
  dsimp only
  refine ⟨output_eq_iff options, ⟨front, delivered, outputs, ?_, ?_, ?_⟩, ?_, ?_, ?_⟩
  · intro clock
    have texts : ((front.map options.output).mapIdx fun i output => output.text (clock i)) =
        front.mapIdx fun i message => (options.output message).text (clock i) := by
      apply List.ext_getElem?
      simp [Function.comp_def]
    rw [transcript, outputs, texts, banner]
  · exact told_output options
  · rw [outputs, follow_plain, shown_filter]
  · rw [outputs, ← rows_eq]
    exact delivered.limit_iff
  · intro full later
    exact follow_later full later
  · rintro before message back rfl none
    obtain ⟨ending, others⟩ := follow_without none before back
    rw [ending, others]

/-- Four messages without a row ahead of the second wanted row, and one message behind it. -/
theorem follow_filters_mixed :
    let options : Options := ⟨"tcp://127.0.0.1:5556", some "AAPL", some 2⟩
    let payload (symbol : String) : List UInt8 := Utf8.encode
      ("\x7b\"timestamp_ms\":1,\"symbol\":\"" ++ symbol ++ "\",\"price\":2,\"volume\":0.5\x7d").toList
    let wanted : Message := [payload "AAPL"]
    let foreign : Message := [payload "MSFT"]
    let back : List Message := [[[0xff]], wanted ++ wanted, [Utf8.encode ['1']], wanted]
    let tick : Tick := ⟨1, "AAPL", .ofCode false 0x4000000000000000, .ofCode false 0x3fe0000000000000⟩
    let outputs := (follow options 0 ([wanted] ++ foreign :: back)).1
    let ending := (follow options 0 ([wanted] ++ foreign :: back)).2
    (∀ limit ∈ options.limit, 1 ≤ limit) ∧
      outputs.filter Output.isRow = [.row tick, .row tick] ∧ ending = .limit ∧
      Told options 0 wanted (some "               1 |         AAPL |       2.0000 |       0.5000") ∧
      follow options 0 ([wanted] ++ foreign :: back ++ [wanted]) = (outputs, ending) ∧
      follow options 0 ([wanted] ++ back) = (outputs.eraseIdx 1, ending) := by
  intro options payload wanted foreign back tick
  have some_ : ∀ limit ∈ options.limit, 1 ≤ limit := by decide
  obtain ⟨-, ⟨_, _, _, _, told, _⟩, counted, later, without⟩ :=
    follow_filters some_ ([wanted] ++ foreign :: back)
  have rows : (follow options 0 ([wanted] ++ foreign :: back)).1.filter Output.isRow =
      [.row tick, .row tick] := by
    decide +kernel
  have full : (follow options 0 ([wanted] ++ foreign :: back)).2 = .limit := by
    rw [counted, List.countP_eq_length_filter, rows]
    rfl
  have none : (options.output foreign).isRow = false := by decide +kernel
  have row := told 0 wanted
  have text : (options.output wanted).text 0 =
      some "               1 |         AAPL |       2.0000 |       0.5000" := by decide +kernel
  rw [text] at row
  exact ⟨some_, rows, full, row, later full [wanted], without [wanted] foreign back rfl none⟩

end Tail
end TickReplay
