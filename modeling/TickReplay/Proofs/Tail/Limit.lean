import TickReplay.Proofs.Tail.Stream

/- The rows that a limit lets through. They are the first rows of the whole stream. The limit is compared
   with the rows printed behind a row only, so a tail of limit zero prints one row before it ends. -/
namespace TickReplay.Tail

def Matches (options : Options) (message : Message) : Prop :=
  ∃ tick, Carries message tick ∧ ∀ symbol ∈ options.symbol, symbol = tick.symbol

theorem isRow_iff (options : Options) (message : Message) :
    (options.output message).isRow ↔ Matches options message := by
  constructor
  · intro row
    generalize shown : options.output message = output at row
    cases output with
    | row tick =>
      have shows_ := (output_eq_iff options message (.row tick)).mp shown
      cases shows_ with
      | row carries wanted => exact ⟨tick, carries, wanted⟩
    | malformed => cases row
    | skipped => cases row
  · intro matching
    obtain ⟨tick, carries, wanted⟩ := matching
    rw [(output_eq_iff options message (.row tick)).mpr (.row carries wanted)]
    rfl

instance decidableMatches (options : Options) (message : Message) :
    Decidable (Matches options message) :=
  decidable_of_iff _ (isRow_iff options message)

def Options.matching (options : Options) (messages : List Message) : Nat :=
  messages.countP fun message => Matches options message

theorem rows_eq_matching (options : Options) (messages : List Message) :
    options.rows messages = options.matching messages := by
  refine List.countP_congr ?_
  intro message _
  rw [isRow_iff, decide_eq_true_iff]

variable {options : Options} {limit : Nat}

theorem rows_follow (given : options.limit = some limit) (printed : Nat) (messages : List Message) :
    (follow options printed messages).1.filter Output.isRow =
      ((messages.map options.output).filter Output.isRow).take (max (limit - printed) 1) := by
  have reached (count : Nat) : options.reached count ↔ limit ≤ count := by
    rw [reached_iff, given]
    simp
  induction messages generalizing printed with
  | nil => simp [follow]
  | cons message more ih =>
    rw [follow_cons, List.map_cons]
    by_cases row : (options.output message).isRow
    · rw [if_pos row, List.filter_cons_of_pos row]
      by_cases full : limit ≤ printed + 1
      · have one : max (limit - printed) 1 = 1 := by omega
        rw [if_pos ((reached _).mpr full), one, List.take_succ_cons, List.take_zero]
        exact List.filter_cons_of_pos row
      · have further : max (limit - printed) 1 = max (limit - (printed + 1)) 1 + 1 := by omega
        rw [if_neg (mt (reached _).mp full), further, List.take_succ_cons, ← ih]
        exact List.filter_cons_of_pos row
    · rw [if_neg row, List.filter_cons_of_neg row, List.filter_cons_of_neg row]
      exact ih printed

/-- A tail with a limit prints the first rows of its stream: as many as the limit, if there are so many,
    but one row where the limit is zero. So it keeps to its limit exactly when that is not zero, or when
    no message matches. -/
theorem follow_limit (endpoint : String) (symbol : Option String) (limit : Nat)
    (messages : List Message) :
    let options : Options := ⟨endpoint, symbol, some limit⟩
    let rows := (follow options 0 messages).1.filter Output.isRow
    rows = ((messages.map options.output).filter Output.isRow).take (max limit 1) ∧
      rows.length = min (max limit 1) (options.matching messages) ∧
      (rows.length = min limit (options.matching messages) ↔
        1 ≤ limit ∨ options.matching messages = 0) := by
  intro options rows
  have first : rows =
      ((messages.map options.output).filter Output.isRow).take (max limit 1) :=
    rows_follow rfl 0 messages
  have count : rows.length = min (max limit 1) (options.matching messages) := by
    rw [first, List.length_take, ← List.countP_eq_length_filter, ← rows_eq, rows_eq_matching]
  refine ⟨first, count, ?_⟩
  rw [count]
  omega

/-- A limit of zero and one tick: its row is printed. -/
theorem follow_limit_zero :
    let options : Options := ⟨"tcp://127.0.0.1:5555", none, some 0⟩
    let messages : List Message := [[Utf8.encode
      "\x7b\"timestamp_ms\":1,\"symbol\":\"A\",\"price\":2,\"volume\":0.5\x7d".toList]]
    ((follow options 0 messages).1.filter Output.isRow).length ≠
      min 0 (options.matching messages) := by
  intro options messages
  have printed : ((follow options 0 messages).1.filter Output.isRow).length = 1 := by decide +kernel
  rw [printed, Nat.zero_min]
  decide

end TickReplay.Tail
