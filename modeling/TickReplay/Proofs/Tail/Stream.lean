import TickReplay.Proofs.Text.Utf8
import TickReplay.Tail

/- A tail as a filter of its stream. What a message prints hangs on the message alone; the limit cuts
   the stream behind the shortest prefix with so many rows, and nothing else counts or stops it. -/
namespace TickReplay.Tail

def Carries (message : Message) (tick : Tick) : Prop :=
  ∃ payload : String, message = [Utf8.encode payload.toList] ∧ Tick.ofWire payload = .ok tick

inductive Broken : Message → MessageError → Prop where
  | multipart {message : Message} (several : ∀ frame, message ≠ [frame]) : Broken message .multipart
  | notText {frame : List UInt8} {fault : Utf8.Fault} (refused : Utf8.decode frame = .error fault) :
      Broken [frame] (.notText fault)
  | schema {text : List Char} {fault : Json.Fault} (refused : Tick.ofWireText text = .error fault) :
      Broken [Utf8.encode text] (.schema text fault)

/-- What one message shows, told by what it carries: a warning if that is no tick, nothing for a tick
    of another symbol, and a row otherwise. -/
inductive Shows (options : Options) (message : Message) : Output → Prop where
  | malformed {error : MessageError} (nothing : ∀ tick, ¬ Carries message tick)
      (reason : Broken message error) : Shows options message (.malformed error)
  | skipped {tick : Tick} {symbol : String} (carries : Carries message tick)
      (filter : options.symbol = some symbol) (other : symbol ≠ tick.symbol) :
      Shows options message .skipped
  | row {tick : Tick} (carries : Carries message tick)
      (wanted : ∀ symbol ∈ options.symbol, symbol = tick.symbol) : Shows options message (.row tick)

def Output.isRow : Output → Bool
  | .row _ => true
  | _ => false

def Output.shown : Output → Bool
  | .skipped => false
  | _ => true

def Options.rows (options : Options) (messages : List Message) : Nat :=
  messages.countP fun message => (options.output message).isRow

/-- The messages behind `printed` rows that a tail gets to see, and how it ends: the shortest first
    part that fills the limit, or all of them. -/
inductive Delivered (options : Options) (printed : Nat) (messages : List Message) :
    List Message → Ending → Prop where
  | filled {limit : Nat} {front : List Message} (given : options.limit = some limit)
      (inside : front <+: messages) (enough : printed + options.rows front = limit)
      (shortest : ∀ other, other <+: messages → limit ≤ printed + options.rows other →
        front <+: other) : Delivered options printed messages front .limit
  | whole (open_ : ∀ limit ∈ options.limit, printed + options.rows messages < limit) :
      Delivered options printed messages messages .interrupt

def Options.plain (options : Options) : Options := { options with symbol := none, limit := none }

def Options.keeps (options : Options) : Output → Bool
  | .row tick => options.wants tick
  | output => output.shown

/-- All that a tail prints. The clock is read anew for every message. -/
def transcript (options : Options) (clock : Nat → Nat) (messages : List Message) : List String :=
  banner options ::
    ((follow options 0 messages).1.mapIdx fun i output => output.text (clock i)).reduceOption

theorem decode_ok_iff (message : Message) (tick : Tick) :
    decode message = .ok tick ↔ Carries message tick := by
  have read (text : List Char) :
      Tick.ofWire (String.ofList text) = .ok tick ↔ Tick.ofWireText text = .ok tick := by
    rw [Tick.ofWire, String.toList_ofList]
    cases Tick.ofWireText text <;> simp
  constructor
  · intro decoded
    unfold decode at decoded
    split at decoded
    · rename_i frame
      split at decoded
      · cases decoded
      · rename_i text valid
        split at decoded
        · rename_i found accepted
          cases decoded
          refine ⟨String.ofList text, ?_, (read text).mpr accepted⟩
          rw [String.toList_ofList, (Utf8.decode_ok_iff frame text).mp valid]
        · cases decoded
    · cases decoded
  · rintro ⟨payload, rfl, accepted⟩
    have accepted := (read payload.toList).mp (by rwa [String.ofList_toList])
    simp only [decode, Utf8.decode_encode, accepted]

theorem decode_error_iff (message : Message) (error : MessageError) :
    decode message = .error error ↔ Broken message error := by
  constructor
  · intro refused
    unfold decode at refused
    split at refused
    · rename_i frame
      split at refused
      · rename_i fault invalid
        cases refused
        exact .notText invalid
      · rename_i text valid
        split at refused
        · cases refused
        · rename_i fault rejected
          cases refused
          rw [← (Utf8.decode_ok_iff frame text).mp valid]
          exact .schema rejected
    · rename_i several
      cases refused
      exact .multipart several
  · intro broken
    cases broken with
    | multipart several =>
      unfold decode
      split
      · exact absurd rfl (several _)
      · rfl
    | notText refused => simp only [decode, refused]
    | schema refused => simp only [decode, Utf8.decode_encode, refused]

theorem wants_iff (options : Options) (tick : Tick) :
    options.wants tick ↔ ∀ symbol ∈ options.symbol, symbol = tick.symbol := by
  simp [Options.wants, Option.all_eq_true]

theorem output_eq_iff (options : Options) (message : Message) (output : Output) :
    options.output message = output ↔ Shows options message output := by
  cases read : decode message with
  | error error =>
    have nothing (tick : Tick) : ¬ Carries message tick := by
      rw [← decode_ok_iff, read]
      nofun
    have reason := (decode_error_iff message error).mp read
    simp only [Options.output, read]
    constructor
    · rintro rfl
      exact .malformed nothing reason
    · intro shows_
      cases shows_ with
      | malformed _ other =>
        rw [← decode_error_iff, read] at other
        cases other
        rfl
      | skipped carries => exact absurd carries (nothing _)
      | row carries => exact absurd carries (nothing _)
  | ok tick =>
    have carries := (decode_ok_iff message tick).mp read
    have only {other : Tick} (also : Carries message other) : tick = other := by
      rw [← decode_ok_iff, read] at also
      exact Except.ok.inj also
    simp only [Options.output, read]
    by_cases wanted : options.wants tick
    · rw [if_pos wanted]
      rw [wants_iff] at wanted
      constructor
      · rintro rfl
        exact .row carries wanted
      · intro shows_
        cases shows_ with
        | malformed nothing => exact absurd carries (nothing tick)
        | skipped also filter other =>
          cases only also
          exact absurd (wanted _ filter) other
        | row also => rw [only also]
    · rw [if_neg wanted]
      rw [wants_iff] at wanted
      constructor
      · rintro rfl
        obtain ⟨symbol, foreign⟩ := Classical.not_forall.mp wanted
        obtain ⟨filter, other⟩ := Classical.not_imp.mp foreign
        exact .skipped carries filter other
      · intro shows_
        cases shows_ with
        | malformed nothing => exact absurd carries (nothing tick)
        | skipped => rfl
        | row also fits =>
          cases only also
          exact absurd fits wanted

variable (options : Options)

theorem follow_cons (printed : Nat) (message : Message) (more : List Message) :
    follow options printed (message :: more) =
      if (options.output message).isRow then
        if options.reached (printed + 1) then ([options.output message], .limit)
        else
          let (outputs, ending) := follow options (printed + 1) more
          (options.output message :: outputs, ending)
      else
        let (outputs, ending) := follow options printed more
        (options.output message :: outputs, ending) := by
  rw [follow]
  cases options.output message with
  | row tick =>
    by_cases full : options.reached (printed + 1)
    · simp only [Options.next, Output.isRow, full, ↓reduceIte]
    · simp only [Options.next, Output.isRow, full, Bool.false_eq_true, ↓reduceIte]
  | malformed error => rfl
  | skipped => rfl

theorem follow_seen (printed : Nat) (messages : List Message) : ∃ seen, seen <+: messages ∧
    (follow options printed messages).1 = seen.map options.output := by
  induction messages generalizing printed with
  | nil => exact ⟨[], List.nil_prefix, rfl⟩
  | cons message more ih =>
    have later (printed : Nat) : ∃ seen, seen <+: message :: more ∧
        options.output message :: (follow options printed more).1 = seen.map options.output := by
      obtain ⟨seen, inside, outputs⟩ := ih printed
      exact ⟨message :: seen, List.cons_prefix_cons.mpr ⟨rfl, inside⟩, by rw [outputs, List.map_cons]⟩
    rw [follow_cons]
    split
    · split
      · exact ⟨[message], List.cons_prefix_cons.mpr ⟨rfl, List.nil_prefix⟩, rfl⟩
      · exact later _
    · exact later _

theorem rows_cons (message : Message) (more : List Message) :
    options.rows (message :: more) =
      options.rows more + if (options.output message).isRow then 1 else 0 :=
  List.countP_cons

theorem reached_iff (printed : Nat) :
    options.reached printed ↔ ∃ limit ∈ options.limit, limit ≤ printed := by
  simp [Options.reached, Option.any_eq_true]

variable {options}

theorem Delivered.cons {printed : Nat} {message : Message} {more front : List Message}
    {ending : Ending} (open_ : ∀ limit ∈ options.limit, printed < limit)
    (rest : Delivered options (printed + if (options.output message).isRow then 1 else 0) more
      front ending) : Delivered options printed (message :: more) (message :: front) ending := by
  have shift (messages : List Message) : printed + options.rows (message :: messages) =
      printed + (if (options.output message).isRow then 1 else 0) + options.rows messages := by
    rw [rows_cons]
    omega
  cases rest with
  | @filled limit _ given inside enough shortest =>
    refine .filled given (List.cons_prefix_cons.mpr ⟨rfl, inside⟩) (by rw [shift, enough]) ?_
    intro other within filled
    rcases List.prefix_cons_iff.mp within with rfl | ⟨tail, rfl, behind⟩
    · have less := open_ limit given
      simp only [Options.rows, List.countP_nil] at filled
      omega
    · rw [shift] at filled
      exact List.cons_prefix_cons.mpr ⟨rfl, shortest tail behind filled⟩
  | whole few =>
    refine .whole fun limit given => ?_
    rw [shift]
    exact few limit given

theorem Delivered.first {printed : Nat} {message : Message} (more : List Message)
    (open_ : ∀ limit ∈ options.limit, printed < limit) (row : (options.output message).isRow)
    (full : options.reached (printed + 1)) :
    Delivered options printed (message :: more) [message] .limit := by
  obtain ⟨limit, given, most⟩ := (reached_iff options (printed + 1)).mp full
  have less := open_ limit given
  have one : options.rows [message] = 1 := by
    rw [rows_cons, if_pos row]
    rfl
  refine .filled given (by simp) (by omega) ?_
  intro other within filled
  rcases List.prefix_cons_iff.mp within with rfl | ⟨tail, rfl, _⟩
  · simp only [Options.rows, List.countP_nil] at filled
    omega
  · simp

/-- A tail shows what its delivered messages show, each by itself. -/
theorem follow_delivered {printed : Nat} (open_ : ∀ limit ∈ options.limit, printed < limit)
    (messages : List Message) : ∃ front,
      Delivered options printed messages front (follow options printed messages).2 ∧
        (follow options printed messages).1 = front.map options.output := by
  induction messages generalizing printed with
  | nil => exact ⟨[], .whole (by simpa [Options.rows] using open_), rfl⟩
  | cons message more ih =>
    rw [follow_cons]
    by_cases row : (options.output message).isRow
    · rw [if_pos row]
      by_cases full : options.reached (printed + 1)
      · rw [if_pos full]
        exact ⟨[message], .first more open_ row full, rfl⟩
      · have further : ∀ limit ∈ options.limit, printed + 1 < limit := by
          intro limit given
          refine Nat.not_le.mp fun most => full ?_
          exact (reached_iff options (printed + 1)).mpr ⟨limit, given, most⟩
        obtain ⟨front, delivered, outputs⟩ := ih further
        rw [if_neg full]
        refine ⟨message :: front, .cons open_ (by rw [if_pos row]; exact delivered), ?_⟩
        simp only [List.map_cons, outputs]
    · obtain ⟨front, delivered, outputs⟩ := ih open_
      rw [if_neg row]
      refine ⟨message :: front, .cons open_ (by rw [if_neg row]; exact delivered), ?_⟩
      simp only [List.map_cons, outputs]

theorem follow_later {printed : Nat} {messages : List Message}
    (full : (follow options printed messages).2 = .limit) (later : List Message) :
    follow options printed (messages ++ later) = follow options printed messages := by
  induction messages generalizing printed with
  | nil => cases full
  | cons message more ih =>
    rw [follow_cons] at full
    rw [List.cons_append, follow_cons, follow_cons]
    by_cases row : (options.output message).isRow
    · simp only [row, ↓reduceIte] at full ⊢
      by_cases reached : options.reached (printed + 1)
      · simp only [reached, ↓reduceIte]
      · simp only [reached, Bool.false_eq_true, ↓reduceIte] at full ⊢
        rw [ih full]
    · simp only [row, Bool.false_eq_true, ↓reduceIte] at full ⊢
      rw [ih full]

theorem follow_without {printed : Nat} {message : Message}
    (none : (options.output message).isRow = false) (front back : List Message) :
    (follow options printed (front ++ message :: back)).2 =
        (follow options printed (front ++ back)).2 ∧
      (follow options printed (front ++ message :: back)).1.eraseIdx front.length =
        (follow options printed (front ++ back)).1 := by
  induction front generalizing printed with
  | nil =>
    rw [List.nil_append, follow_cons]
    simp only [none, Bool.false_eq_true, ↓reduceIte]
    exact ⟨rfl, rfl⟩
  | cons first front ih =>
    rw [List.cons_append, List.cons_append, follow_cons, follow_cons]
    by_cases row : (options.output first).isRow
    · simp only [row, ↓reduceIte]
      by_cases reached : options.reached (printed + 1)
      · simp only [reached, ↓reduceIte]
        exact ⟨trivial, rfl⟩
      · obtain ⟨ending, outputs⟩ := @ih (printed + 1)
        simp only [reached, Bool.false_eq_true, ↓reduceIte]
        exact ⟨ending, congrArg (options.output first :: ·) outputs⟩
    · obtain ⟨ending, outputs⟩ := @ih printed
      simp only [row, Bool.false_eq_true, ↓reduceIte]
      exact ⟨ending, congrArg (options.output first :: ·) outputs⟩

theorem Delivered.limit_iff {messages front : List Message} {ending : Ending}
    (delivered : Delivered options 0 messages front ending) :
    ending = .limit ↔ options.limit = some (options.rows front) := by
  cases delivered with
  | @filled limit _ given inside enough =>
    rw [Nat.zero_add] at enough
    rw [given, enough]
    exact ⟨fun _ => rfl, fun _ => rfl⟩
  | whole few =>
    refine ⟨nofun, fun given => ?_⟩
    have less := few _ given
    omega

theorem rows_eq (options : Options) (messages : List Message) :
    options.rows messages = (messages.map options.output).countP Output.isRow := by
  rw [List.countP_map]
  rfl

theorem follow_plain (options : Options) (messages : List Message) :
    (follow options.plain 0 messages).1 = messages.map options.plain.output := by
  have endless : ∀ limit ∈ options.plain.limit, 0 < limit := nofun
  obtain ⟨front, delivered, outputs⟩ := follow_delivered endless messages
  generalize (follow options.plain 0 messages).2 = ending at delivered
  cases delivered with
  | filled given => cases given
  | whole => exact outputs

theorem output_eq_keeps (options : Options) (message : Message) : options.output message =
    if options.keeps (options.plain.output message) then options.plain.output message
    else .skipped := by
  have all (tick : Tick) : options.plain.wants tick = true := rfl
  cases read : decode message with
  | error error =>
    simp only [Options.output, read]
    rfl
  | ok tick => simp only [Options.output, read, all, ↓reduceIte, Options.keeps]

theorem shown_filter (options : Options) (messages : List Message) :
    (messages.map options.output).filter Output.shown =
      (messages.map options.plain.output).filter options.keeps := by
  induction messages with
  | nil => rfl
  | cons message more ih =>
    have shown (output : Output) (keeps : options.keeps output) : output.shown := by
      cases output with
      | skipped => cases keeps
      | row => rfl
      | malformed => rfl
    rw [List.map_cons, List.map_cons, List.filter_cons, List.filter_cons, ih,
      output_eq_keeps options message]
    by_cases keeps : options.keeps (options.plain.output message)
    · rw [if_pos keeps, if_pos (shown _ keeps), if_pos keeps]
    · rw [if_neg keeps, if_neg keeps]
      rfl

end TickReplay.Tail
