import Mathlib.Data.List.Forall2
import TickReplay.Proofs.Feed.Publication
import TickReplay.Proofs.Json.Canonical
import TickReplay.Text.Terminal

/- What the log prints. A call that is heard prints one line, from which its level, its texts and its
   metadata can be read back; silence is what the last setting before a call says. -/
namespace TickReplay.Log

open Json (Reordered Throughout Ascending)

def levelText : Level → String
  | .info => "info"
  | .warn => "warn"
  | .error => "error"

def Entry.document (clock : Nat) (entry : Entry) (metadata : Json) : Document :=
  .object [("level", .text (levelText entry.level)), ("event", .text entry.event),
    ("message", .text entry.message), ("timestamp_ms", .numeral (Nat.toDigits 10 clock)),
    ("metadata", metadata.document)]

/-- A line that holds an entry, with the metadata in the order of their keys: in its printed digits and,
    where numerals are converted, as the values that these denote. It is the line of the metadata in
    any other order too. -/
structure Holds (clock : Nat) (entry : Entry) (line : String) : Prop where
  single : Text.lines line.toList = [line.toList]
  read : ∃ metadata, Reordered entry.metadata metadata ∧
    Throughout Json.Number.Proper Ascending metadata ∧
    Document.ofText line.toList = .ok (entry.document clock metadata) ∧
    Json.ofText line.toList = .ok (entry.document clock metadata).value
  ordered : ∀ metadata, Reordered entry.metadata metadata →
    { entry with metadata }.line clock = line

/-- What a call prints: a line if it is heard, on the stream of its level, and nothing otherwise. -/
inductive Prints (silent : Bool) (clock : Nat) : Call → List Printed → Prop where
  | setting (next : Bool) : Prints silent clock (.setSilent next) []
  | muted (entry : Entry) (is_silent : silent) : Prints silent clock (.emit entry) []
  | line {entry : Entry} {line : String} (heard : silent = false)
      (holds : Holds clock entry line) : Prints silent clock (.emit entry)
        [⟨if entry.level = .error then .errors else .output, line⟩]

structure Given (call : Nat × Call) : Prop where
  clock : call.1 < word128
  metadata : ∀ entry, call.2 = .emit entry → entry.metadata.Proper

def Call.setting? : Call → Option Bool
  | .setSilent silent => some silent
  | .emit _ => none

def silentAfter (silent : Bool) (calls : List (Nat × Call)) : Bool :=
  (calls.filterMap fun call => call.2.setting?).getLast?.getD silent

theorem proper_json {clock : Nat} (fits : clock < word128) {entry : Entry}
    (proper : entry.metadata.Proper) :
    Throughout Json.Number.Proper (fun _ => True) (entry.json clock) := by
  have metadata : Throughout Json.Number.Proper (fun _ => True) entry.metadata.canonical :=
    Json.throughout_mono (fun _ _ => trivial) _ (Json.throughout_canonical entry.metadata proper)
  exact ⟨trivial, trivial, trivial, trivial, fits, metadata, trivial⟩

theorem document_json (clock : Nat) (entry : Entry) :
    (entry.json clock).document = entry.document clock entry.metadata.canonical := by
  have level : entry.level.name = levelText entry.level := by cases entry.level <;> rfl
  simp [level, Entry.json, Entry.document, Json.document, Json.memberDocuments, Json.ofNat,
    Json.Number.text, Json.integerText]

theorem ofText_line {clock : Nat} (fits : clock < word128) {entry : Entry}
    (proper : entry.metadata.Proper) : Document.ofText (entry.line clock).toList =
      .ok (entry.document clock entry.metadata.canonical) := by
  rw [Entry.line, Json.compact, String.toList_ofList,
    Json.ofText_compactText (proper_json fits proper), document_json]

theorem line_single (clock : Nat) (entry : Entry) :
    Text.lines (entry.line clock).toList = [(entry.line clock).toList] := by
  refine List.splitOn_eq_singleton fun inside => ?_
  rw [Entry.line, Json.compact, String.toList_ofList] at inside
  exact absurd (Json.shown_compactText _ '\n' inside) (by decide)

theorem value_line {clock : Nat} (fits : clock < word128) {entry : Entry}
    (proper : entry.metadata.Proper) : Json.ofText (entry.line clock).toList =
      .ok (entry.document clock entry.metadata.canonical).value := by
  rw [Document.ofText_value, ofText_line fits proper]
  rfl

theorem holds_line {clock : Nat} (fits : clock < word128) {entry : Entry}
    (proper : entry.metadata.Proper) : Holds clock entry (entry.line clock) where
  single := line_single clock entry
  read := ⟨entry.metadata.canonical, Json.reordered_canonical entry.metadata proper,
    Json.throughout_canonical entry.metadata proper, ofText_line fits proper,
    value_line fits proper⟩
  ordered := by
    intro metadata same
    have canonical := Json.canonical_eq entry.metadata proper same
    simp only [Entry.line, Entry.json, canonical]

theorem prints_run {clock : Nat} {call : Call} (given : Given (clock, call)) (silent : Bool) :
    Prints silent clock call (call.run clock silent).2 := by
  cases call with
  | setSilent next => exact .setting next
  | emit entry =>
    cases silent with
    | true => exact .muted entry rfl
    | false =>
      have holds := holds_line given.clock (given.metadata entry rfl)
      have stream : entry.level.stream = if entry.level = .error then .errors else .output := by
        cases entry.level <;> rfl
      have line : Prints false clock (.emit entry) _ := .line rfl holds
      rw [← stream] at line
      exact line

theorem silentAfter_cons (silent : Bool) (clock : Nat) (call : Call) (more : List (Nat × Call)) :
    silentAfter silent ((clock, call) :: more) = silentAfter (call.run clock silent).1 more := by
  cases call with
  | emit entry => rfl
  | setSilent next =>
    change (next :: more.filterMap fun call => call.2.setting?).getLast?.getD silent = _
    rw [List.getLast?_cons]
    rfl

theorem runTimed_length (silent : Bool) (calls : List (Nat × Call)) :
    (runTimed silent calls).length = calls.length := by
  induction calls generalizing silent with
  | nil => rfl
  | cons call more ih => exact congrArg (· + 1) (ih _)

theorem runTimed_at (silent : Bool) (front : List (Nat × Call)) (clock : Nat) (call : Call)
    (back : List (Nat × Call)) :
    (runTimed silent (front ++ (clock, call) :: back))[front.length]? =
      some (call.run clock (silentAfter silent front)).2 := by
  induction front generalizing silent with
  | nil => rfl
  | cons first front ih =>
    obtain ⟨clock', call'⟩ := first
    rw [silentAfter_cons]
    exact ih (call'.run clock' silent).1

def payload? (line : String) : Option String :=
  match Document.ofText line.toList with
  | .ok document => do (← (← document.member? "metadata").member? "payload").text?
  | .error _ => none

theorem canonical_sentLine (index total : Nat) (payload : String) :
    (Feed.sentLine index total payload).metadata.canonical =
      .object [("index", Json.ofNat index), ("payload", .text payload),
        ("total", Json.ofNat total)] := by
  rfl

theorem proper_sentLine {index total : Nat} (counted : index ≤ total)
    (few : total < word64) (payload : String) :
    (Feed.sentLine index total payload).metadata.Proper := by
  have word : word64 < word128 := by decide
  have fits : ∀ n : Nat, n ≤ total → (n : Int).natAbs < word128 := by
    intro n small
    rw [Int.natAbs_natCast]
    omega
  have distinct : ["index", "total", "payload"].Nodup := by decide
  exact ⟨distinct, fits index counted, fits total (Nat.le_refl total), trivial, trivial⟩

theorem payload_sentLine {clock index total : Nat} (fits : clock < word128)
    (counted : index ≤ total) (few : total < word64) (payload : String) :
    payload? ((Feed.sentLine index total payload).line clock) = some payload := by
  rw [payload?, ofText_line fits (proper_sentLine counted few payload),
    canonical_sentLine]
  rfl

theorem payloads_broadcast (conditions : Feed.Conditions) (delay : Duration) {ticks : List Tick}
    (few : ticks.length < word64) (scene : Feed.Scene) :
    let trace := (Feed.broadcast conditions delay ticks scene).trace
    List.Forall₂
      (fun payload entry => ∀ clock < word128, payload? (entry.line clock) = some payload)
      (Feed.sentPayloads trace) (Feed.sentLines trace) := by
  intro trace
  have run := Feed.published_of_publication
    (Feed.broadcast_publication conditions delay ticks scene).1
  rw [Feed.sentPayloads_eq run, run.lines_eq, List.forall₂_iff_get]
  refine ⟨by simp, ?_⟩
  intro i inside _ clock fits
  have counted : i + 1 ≤ ticks.length := by
    simp only [List.length_map, List.length_take] at inside
    omega
  simpa using payload_sentLine fits counted few _

/-- Every call prints one line that holds its entry, or nothing while the log is silent, and the lines
    of a broadcast tell its payloads, whatever characters stand in them. -/
theorem calls_print_and_tell (silent : Bool) (calls : List (Nat × Call))
    (given : ∀ call ∈ calls, Given call) (conditions : Feed.Conditions) (delay : Duration)
    (ticks : List Tick) (few : ticks.length < word64) (scene : Feed.Scene) :
    ((runTimed silent calls).length = calls.length ∧
      ∀ front clock call back, calls = front ++ (clock, call) :: back →
        ∃ printed, (runTimed silent calls)[front.length]? = some printed ∧
          Prints (silentAfter silent front) clock call printed) ∧
    let trace := (Feed.broadcast conditions delay ticks scene).trace
    List.Forall₂
      (fun payload entry => ∀ clock < word128, payload? (entry.line clock) = some payload)
      (Feed.sentPayloads trace) (Feed.sentLines trace) := by
  refine ⟨⟨runTimed_length silent calls, ?_⟩, payloads_broadcast conditions delay few scene⟩
  rintro front clock call back rfl
  exact ⟨_, runTimed_at silent front clock call back,
    prints_run (given (clock, call) (by simp)) _⟩

/-- A symbol with a quote and a newline stands twice quoted in its line and still comes back. -/
theorem calls_print_and_tell_quoted :
    let entry : Entry := ⟨.error, "bad \"event\"\n", "bell \x07 and é日",
      .object [("β", .list [.null, .text "a\\\"\n"]),
        ("b", .object [("y", .boolean true), ("x", .number (.integer (-1)))])]⟩
    let calls := [(0, .setSilent true), (1, .emit entry), (2, .setSilent false), (3, .emit entry)]
    let tick : Tick := ⟨-5, "A\"\nB", .ofCode false 0x3fd3333333333334, .ofCode true 1⟩
    let trace := (Feed.broadcast {} ⟨0, 10, by decide⟩ [tick] ⟨0, .initial .none, []⟩).trace
    (∀ call ∈ calls, Given call) ∧ [tick].length < word64 ∧
      (runTimed false calls)[1]? = some [] ∧
      (∃ line, (runTimed false calls)[3]? = some [⟨.errors, line⟩] ∧ Holds 3 entry line) ∧
      (Feed.sentLines trace).map (fun line => payload? (line.line 7)) = [some tick.wire] := by
  intro entry calls tick trace
  have given : ∀ call ∈ calls, Given call := by
    have proper : entry.metadata.Proper := by
      have distinct : ["β", "b"].Nodup ∧ ["y", "x"].Nodup := by decide
      have small : (-1 : Int).natAbs < word128 := by decide
      exact ⟨distinct.1, ⟨trivial, trivial, trivial⟩, ⟨distinct.2, trivial, small, trivial⟩, trivial⟩
    have emitted : ∀ clock < word128, Given (clock, .emit entry) := by
      intro clock fits
      refine ⟨fits, ?_⟩
      rintro _ ⟨⟩
      exact proper
    have set : ∀ clock < word128, ∀ silent, Given (clock, .setSilent silent) :=
      fun clock fits silent => ⟨fits, nofun⟩
    intro call member
    simp only [calls, List.mem_cons, List.not_mem_nil, or_false] at member
    rcases member with rfl | rfl | rfl | rfl
    · exact set 0 (by decide) true
    · exact emitted 1 (by decide)
    · exact set 2 (by decide) false
    · exact emitted 3 (by decide)
  obtain ⟨⟨_, each⟩, told⟩ := calls_print_and_tell false calls given {} ⟨0, 10, by decide⟩ [tick]
    (by decide) ⟨0, .initial .none, []⟩
  obtain ⟨muted, second, quiet⟩ := each [(0, .setSilent true)] 1 (.emit entry) _ rfl
  obtain ⟨heard, fourth, loud⟩ := each
    [(0, .setSilent true), (1, .emit entry), (2, .setSilent false)] 3 (.emit entry) [] rfl
  refine ⟨given, by decide, ?_, ?_, ?_⟩
  · cases quiet with
    | muted => exact second
    | line heard => cases heard
  · cases loud with
    | muted _ is_silent => cases is_silent
    | line _ holds => exact ⟨_, fourth, holds⟩
  · have payloads : Feed.sentPayloads trace = [tick.wire] := rfl
    have tells : List.Forall₂
        (fun payload line => ∀ clock < word128, payload? (Entry.line clock line) = some payload)
        [tick.wire] (Feed.sentLines trace) := payloads ▸ told
    generalize Feed.sentLines trace = lines at tells
    cases tells with
    | cons tells none =>
      cases none
      rw [List.map_singleton, tells 7 (by decide)]

end TickReplay.Log
