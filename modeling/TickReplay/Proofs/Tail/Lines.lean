import Mathlib.Data.List.ReduceOption
import TickReplay.Proofs.Tail.Table

/- The physical lines of a tail. A warning is one line whatever a message holds. A row has the lines of
   its symbol, the first behind the front of the row and the last in front of its numbers, so a newline
   in a symbol splits the row and what stands between two newlines is a line of its own. -/
namespace TickReplay

namespace Text

def framed (front back : List Char) : List (List Char) → List (List Char)
  | [] => []
  | [line] => [front ++ (line ++ back)]
  | line :: next :: more => (front ++ line) :: framed [] back (next :: more)

theorem framed_cons (front back line : List Char) {more : List (List Char)} (some_ : more ≠ []) :
    framed front back (line :: more) = (front ++ line) :: framed [] back more := by
  cases more with
  | nil => exact absurd rfl some_
  | cons next more => rfl

theorem framed_head (front back : List Char) (c : Char) (pieces : List (List Char)) :
    framed front back (pieces.modifyHead (c :: ·)) = framed (front ++ [c]) back pieces := by
  match pieces with
  | [] => rfl
  | [line] => simp [framed]
  | line :: next :: more => simp [framed]

theorem framed_length (front back : List Char) (pieces : List (List Char)) :
    (framed front back pieces).length = pieces.length := by
  induction pieces generalizing front with
  | nil => rfl
  | cons line more ih =>
    cases more with
    | nil => rfl
    | cons next more => exact congrArg (· + 1) (ih [])

theorem lines_newline (cs : List Char) : lines ('\n' :: cs) = [] :: lines cs := by
  rw [lines, List.splitOn_cons_eq_if_modifyHead]
  rfl

theorem lines_other {c : Char} (other : c ≠ '\n') (cs : List Char) :
    lines (c :: cs) = (lines cs).modifyHead (c :: ·) := by
  rw [lines, List.splitOn_cons_eq_if_modifyHead, if_neg (by simpa using other)]
  rfl

theorem lines_ne_nil (cs : List Char) : lines cs ≠ [] := List.splitOn_ne_nil _ _

theorem lines_length (cs : List Char) : (lines cs).length = cs.count '\n' + 1 := by
  induction cs with
  | nil => rfl
  | cons c cs ih =>
    by_cases newline : c = '\n'
    · subst newline
      rw [lines_newline, List.length_cons, ih, List.count_cons_self]
    · rw [lines_other newline, List.length_modifyHead, ih, List.count_cons_of_ne newline]

theorem lines_framed {front back : List Char} (plain_front : '\n' ∉ front)
    (plain_back : '\n' ∉ back) (cs : List Char) :
    lines (front ++ (cs ++ back)) = framed front back (lines cs) := by
  -- The front takes up the characters before the first newline.
  induction cs generalizing front with
  | nil =>
    have plain : '\n' ∉ front ++ back := by
      simpa using ⟨plain_front, plain_back⟩
    exact List.splitOn_eq_singleton plain
  | cons c cs ih =>
    by_cases newline : c = '\n'
    · subst newline
      have rest := ih List.not_mem_nil
      rw [lines_newline, framed_cons _ _ _ (lines_ne_nil cs), List.append_nil, ← rest]
      exact List.splitOn_append_cons_self_of_not_mem plain_front _
    · have plain : '\n' ∉ front ++ [c] := by
        simpa using ⟨plain_front, Ne.symm newline⟩
      rw [lines_other newline, framed_head, ← ih plain]
      simp

end Text

namespace Tick

def rowFront (t : Tick) : List Char :=
  aligned 16 (Json.integerText t.timestamp.toInt) ++ " | ".toList ++
    List.replicate (12 - t.symbol.toList.length) ' '

def rowBack (t : Tick) : List Char :=
  " | ".toList ++ aligned 12 (Decimal.fixed 4 t.price) ++ " | ".toList ++
    aligned 12 (Decimal.fixed 4 t.volume)

theorem row_toList (t : Tick) : t.row.toList = t.rowFront ++ (t.symbol.toList ++ t.rowBack) := by
  rw [row_eq, String.toList_ofList]
  simp [rowFront, rowBack, aligned]

theorem shown_blanks (n : Nat) : Json.Shown (List.replicate n ' ') := by
  intro c blank
  rw [(List.mem_replicate.mp blank).2]
  decide

theorem shown_separator : Json.Shown " | ".toList := by simp [Json.Shown]

theorem shown_aligned (width : Nat) {text : List Char} (shown : Json.Shown text) :
    Json.Shown (aligned width text) :=
  Json.shown_append (shown_blanks _) shown

theorem shown_fixed (places : Nat) (x : Binary64) : Json.Shown (Decimal.fixed places x) := by
  unfold Decimal.fixed
  split
  · simp [Json.Shown]
  · refine Json.shown_append (Json.shown_sign _) ?_
    split
    · exact Json.shown_append (Json.shown_digits (Json.toDigits_digits _))
        (Json.shown_cons (by decide)
          (Json.shown_digits (Decimal.padded_digits _ (Json.toDigits_digits _))))
    · simp [Json.Shown]

theorem newline_of_shown {text : List Char} (shown : Json.Shown text) : '\n' ∉ text :=
  fun inside => absurd (shown '\n' inside) (by decide)

theorem newline_rowFront (t : Tick) : '\n' ∉ t.rowFront := by
  have timestamp : Json.Shown (Json.integerText t.timestamp.toInt) :=
    Json.shown_number (.integer t.timestamp.toInt)
  exact newline_of_shown (Json.shown_append
    (Json.shown_append (shown_aligned 16 timestamp) shown_separator) (shown_blanks _))

theorem newline_rowBack (t : Tick) : '\n' ∉ t.rowBack := by
  have price := shown_aligned 12 (shown_fixed 4 t.price)
  have volume := shown_aligned 12 (shown_fixed 4 t.volume)
  exact newline_of_shown (Json.shown_append (Json.shown_append
    (Json.shown_append shown_separator price) shown_separator) volume)

theorem lines_row (t : Tick) :
    Text.lines t.row.toList = Text.framed t.rowFront t.rowBack (Text.lines t.symbol.toList) := by
  rw [row_toList]
  exact Text.lines_framed t.newline_rowFront t.newline_rowBack _

end Tick

namespace Tail

def Options.printed (options : Options) (clock : Nat) (message : Message) : List String :=
  lines ((options.output message).text clock).toList

/-- What a message prints, line by line: nothing if its tick is not wanted, one line of the log if it
    holds no tick, and the lines of its symbol, framed by the columns around it, for a wanted tick. -/
inductive PrintsLines (options : Options) (clock : Nat) (message : Message) :
    List String → Prop where
  | nothing (shows_ : Shows options message .skipped) : PrintsLines options clock message []
  | warning {error : MessageError} {line : String}
      (shows_ : Shows options message (.malformed error))
      (holds : clock < word128 → Log.Holds clock (warningEntry error) line) :
      PrintsLines options clock message [line]
  | row {tick : Tick} (shows_ : Shows options message (.row tick)) :
      PrintsLines options clock message
        ((Text.framed tick.rowFront tick.rowBack (Text.lines tick.symbol.toList)).map String.ofList)

theorem lines_singleton (text : String) :
    lines [text] = (Text.lines text.toList).map String.ofList := by
  simp [lines]

theorem prints_printed (options : Options) (clock : Nat) (message : Message) :
    PrintsLines options clock message (options.printed clock message) := by
  have shows_ := (output_eq_iff options message _).mp rfl
  rw [Options.printed]
  generalize options.output message = output at shows_ ⊢
  cases output with
  | row tick =>
    rw [Output.text, Option.toList_some, lines_singleton, Tick.lines_row]
    exact .row shows_
  | malformed error =>
    rw [Output.text, Option.toList_some, lines_singleton, Log.line_single, List.map_singleton,
      String.ofList_toList]
    exact .warning shows_ fun fits => holds_warning fits error
  | skipped => exact .nothing shows_

/-- At most one line is printed for every message but a wanted tick with a newline in its symbol. -/
theorem printed_length_iff (options : Options) (clock : Nat) (message : Message) :
    (options.printed clock message).length ≤ 1 ↔
      ∀ tick, Shows options message (.row tick) → '\n' ∉ tick.symbol.toList := by
  have only {output : Output} (shows_ : Shows options message output) :
      options.output message = output := (output_eq_iff options message output).mpr shows_
  have prints := prints_printed options clock message
  generalize options.printed clock message = printed at prints
  cases prints with
  | nothing shows_ =>
    refine ⟨fun _ tick row => ?_, fun _ => Nat.zero_le 1⟩
    cases (only shows_).symm.trans (only row)
  | warning shows_ =>
    refine ⟨fun _ tick row => ?_, fun _ => Nat.le_refl 1⟩
    cases (only shows_).symm.trans (only row)
  | @row tick shows_ =>
    rw [List.length_map, Text.framed_length, Text.lines_length]
    constructor
    · intro most other row
      cases (only shows_).symm.trans (only row)
      exact List.count_eq_zero.mp (by omega)
    · intro plain
      have none := List.count_eq_zero.mpr (plain tick shows_)
      omega

theorem lines_append (first second : List String) :
    lines (first ++ second) = lines first ++ lines second :=
  List.flatMap_append

theorem lines_reduceOption (texts : List (Option String)) :
    lines texts.reduceOption = texts.flatMap fun text => lines text.toList := by
  induction texts with
  | nil => rfl
  | cons text more ih =>
    cases text with
    | none => rwa [List.reduceOption_cons_of_none, List.flatMap_cons]
    | some text =>
      rw [List.reduceOption_cons_of_some, List.flatMap_cons, ← ih]
      exact lines_append [text] more.reduceOption

theorem lines_transcript {options : Options} {messages seen : List Message}
    (outputs : (follow options 0 messages).1 = seen.map options.output) (clock : Nat → Nat) :
    lines (transcript options clock messages) = lines [banner options] ++
      (seen.mapIdx fun i message => options.printed (clock i) message).flatten := by
  rw [transcript, ← List.singleton_append, lines_append, lines_reduceOption, outputs,
    List.flatMap_def]
  congr 2
  apply List.ext_getElem?
  simp [Options.printed, Function.comp_def]

/-- What a tail prints in all, and how many lines a message leads to: none for a tick that is not wanted,
    one for a message without a tick, and one more than its symbol has newlines for a wanted tick. -/
theorem follow_lines (options : Options) (clock : Nat → Nat) (messages : List Message) :
    (∃ seen, seen <+: messages ∧ (follow options 0 messages).1 = seen.map options.output ∧
      lines (transcript options clock messages) =
        lines [s!"Connected to {options.endpoint}; streaming ticks..."] ++
        (seen.mapIdx fun i message => options.printed (clock i) message).flatten) ∧
    ∀ clock message,
      PrintsLines options clock message (options.printed clock message) ∧
      ((options.printed clock message).length ≤ 1 ↔
        ∀ tick, Shows options message (.row tick) → '\n' ∉ tick.symbol.toList) := by
  obtain ⟨seen, inside, outputs⟩ := follow_seen options 0 messages
  refine ⟨⟨seen, inside, outputs, lines_transcript outputs clock⟩, fun clock message => ?_⟩
  exact ⟨prints_printed options clock message, printed_length_iff options clock message⟩

/-- A symbol of three lines whose second is the row of another tick: the row is forged. -/
theorem follow_lines_forged :
    let options : Options := ⟨"ipc://feed.sock", none, none⟩
    let forged : Tick := ⟨2, "MSFT", .ofCode false 0x3ff0000000000000, .zero false⟩
    let message : Message := [Utf8.encode
      ("[1,\"A\\n" ++ forged.row ++ "\\nB\",2,0.5]").toList]
    options.printed 0 message =
        ["               1 | A", forged.row, "B |       2.0000 |       0.5000"] ∧
      ¬ (options.printed 0 message).length ≤ 1 := by
  intro options forged message
  have printed : options.printed 0 message =
      ["               1 | A", forged.row, "B |       2.0000 |       0.5000"] := by
    decide +kernel
  rw [printed]
  exact ⟨rfl, by decide⟩

end Tail
end TickReplay
