import TickReplay.Proofs.Feed.Trace

/- What a broadcast publishes. The calls on the channel, the published lines and the ending always
   tell the same number of sent ticks, whatever the watch does and whichever send is refused. -/
namespace TickReplay.Feed

def Ending.refusal : Ending → List Act
  | .refused _ => [.refuse]
  | _ => []

def sentLine (i total : Nat) (payload : String) : Log.Entry :=
  ⟨.info, "dispatch.sent", "Tick published",
    .object [("index", .number (.integer i)), ("total", .number (.integer total)),
      ("payload", .text payload)]⟩

/-- A broadcast of some ticks behind `done` others: a first part of them is sent in order, each once,
    and each leaves its line; only a refusal adds a call to the channel. -/
structure Publication (failOn : Option Nat) (total done : Nat) (ticks : List Tick) (ending : Ending)
    (trace : List Happening) : Prop where
  from_le : done ≤ ending.sent
  to_le : ending.sent ≤ done + ticks.length
  acts_eq : acts trace =
    (ticks.take (ending.sent - done)).map (fun tick => .send tick.wire) ++ ending.refusal
  lines_eq : feedLines trace = (ticks.take (ending.sent - done)).mapIdx fun i tick =>
    sentLine (done + i + 1) total tick.wire
  completed : ∀ k, ending = .completed k → k = done + ticks.length
  refused : ∀ k, ending = .refused k → k < done + ticks.length ∧ failOn = some (k + 1)

theorem publication_unsent {failOn : Option Nat} (total : Nat) {done : Nat} {ticks : List Tick}
    {ending : Ending} {trace : List Happening} (sent : ending.sent = done)
    (acts_eq : acts trace = ending.refusal) (lines_eq : feedLines trace = [])
    (completed : ∀ k, ending = .completed k → ticks = [])
    (refused : ∀ k, ending = .refused k → ticks ≠ [] ∧ failOn = some (k + 1)) :
    Publication failOn total done ticks ending trace where
  from_le := Nat.le_of_eq sent.symm
  to_le := by omega
  acts_eq := by simp [sent, acts_eq]
  lines_eq := by simp [sent, lines_eq]
  completed := by
    intro k ends
    rw [ends] at sent
    rw [completed k ends]
    exact sent
  refused := by
    intro k ends
    obtain ⟨some, fails⟩ := refused k ends
    rw [ends] at sent
    have positive := List.length_pos_iff.mpr some
    exact ⟨by simp only [Ending.sent] at sent; omega, fails⟩

theorem publication_sent {failOn : Option Nat} {total done : Nat} {tick : Tick} {more : List Tick}
    {ending : Ending} {front trace : List Happening} (send : acts front = [.send tick.wire])
    (line : feedLines front = [sentLine (done + 1) total tick.wire])
    (tail : Publication failOn total (done + 1) more ending trace) :
    Publication failOn total done (tick :: more) ending (front ++ trace) := by
  have some := tail.from_le
  have most := tail.to_le
  obtain ⟨k, count⟩ : ∃ k, ending.sent = done + 1 + k := ⟨ending.sent - (done + 1), by omega⟩
  have here : ending.sent - done = k + 1 := by omega
  have there : ending.sent - (done + 1) = k := by omega
  constructor
  · omega
  · simp only [List.length_cons]
    omega
  · rw [acts_append, send, tail.acts_eq, here, there]
    rfl
  · rw [feedLines_append, line, tail.lines_eq, here, there, List.take_succ_cons, List.mapIdx_cons]
    have shift : ∀ i, done + 1 + i + 1 = done + (i + 1) + 1 := by omega
    simp only [shift]
    rfl
  · intro k ends
    have all := tail.completed k ends
    simp only [List.length_cons]
    omega
  · intro k ends
    obtain ⟨unsent, fails⟩ := tail.refused k ends
    exact ⟨by simp only [List.length_cons]; omega, fails⟩

theorem publication_quiet {failOn : Option Nat} {total done : Nat} {ticks : List Tick}
    {ending : Ending} {front trace : List Happening} (quiet : Quiet front)
    (tail : Publication failOn total done ticks ending trace) :
    Publication failOn total done ticks ending (front ++ trace) where
  from_le := tail.from_le
  to_le := tail.to_le
  acts_eq := by rw [acts_append, quiet_acts quiet, tail.acts_eq]; rfl
  lines_eq := by rw [feedLines_append, quiet_feedLines quiet, tail.lines_eq]; rfl
  completed := tail.completed
  refused := tail.refused

theorem broadcastFrom_publication (conditions : Conditions) (delay : Duration) (total sent : Nat)
    (scene : Scene) (ticks : List Tick) :
    let played := broadcastFrom conditions delay total sent scene ticks
    Publication conditions.failOn total sent ticks played.ending played.trace ∧
      ∀ k, played.ending = .interrupted k → k < sent + ticks.length := by
  induction ticks generalizing sent scene with
  | nil => exact ⟨publication_unsent total rfl rfl rfl (fun _ _ => rfl) nofun, nofun⟩
  | cons tick more ih =>
    simp only [broadcastFrom]
    -- An interruption is seen before the send, or the send is refused, or it is the last one, or a
    -- pause follows it.
    split
    · refine ⟨publication_unsent total rfl rfl rfl nofun nofun, ?_⟩
      intro k ends
      cases ends
      simp
    split
    · rename_i fails
      refine ⟨publication_unsent total rfl rfl rfl nofun ?_, nofun⟩
      intro k ends
      cases ends
      exact ⟨nofun, fails⟩
    generalize seen : ({ scene with watch := scene.watch.see } : Scene) = looked
    have send := sendTick_acts conditions total (sent + 1) tick looked
    have line := sendTick_feedLines conditions total (sent + 1) tick looked
    split
    · rename_i last
      have none : more = [] := List.isEmpty_iff.mp last
      have tail : Publication conditions.failOn total (sent + 1) more (.completed (sent + 1)) [] :=
        publication_unsent total rfl rfl rfl (fun _ _ => none) nofun
      have all := publication_sent send line tail
      rw [List.append_nil] at all
      exact ⟨all, nofun⟩
    · rename_i unsent
      have rest : more ≠ [] := fun none => unsent (List.isEmpty_iff.mpr none)
      have positive := List.length_pos_iff.mpr rest
      have quiet := quiet_pause delay (conditions.timerFirst (sent + 1))
        (sendTick conditions total (sent + 1) tick looked).1
      split
      · have tail : Publication conditions.failOn total (sent + 1) more (.interrupted (sent + 1))
            [] := publication_unsent total rfl rfl rfl nofun nofun
        have all := publication_sent send line (publication_quiet quiet tail)
        rw [List.append_nil] at all
        refine ⟨all, ?_⟩
        intro k ends
        cases ends
        simp only [List.length_cons]
        omega
      · obtain ⟨tail, interrupted⟩ := ih (sent + 1) (pause delay (conditions.timerFirst (sent + 1))
          (sendTick conditions total (sent + 1) tick looked).1).scene
        have all := publication_sent send line (publication_quiet quiet tail)
        rw [← List.append_assoc] at all
        refine ⟨all, ?_⟩
        intro k ends
        have less := interrupted k ends
        simp only [List.length_cons]
        omega

theorem broadcast_publication (conditions : Conditions) (delay : Duration) (ticks : List Tick)
    (scene : Scene) :
    let played := broadcast conditions delay ticks scene
    Publication conditions.failOn ticks.length 0 ticks played.ending played.trace ∧
      ∀ k, played.ending = .interrupted k → k < ticks.length := by
  have run := broadcastFrom_publication conditions delay ticks.length 0 scene ticks
  rw [Nat.zero_add] at run
  exact run

theorem warmAndBroadcast_publication (conditions : Conditions) (warmup delay : Duration)
    (ticks : List Tick) (scene : Scene) :
    let played := warmAndBroadcast conditions warmup delay ticks scene
    Publication conditions.failOn ticks.length 0 ticks played.ending played.trace ∧
      ∀ k, played.ending = .interrupted k → k < ticks.length ∨ ticks = [] := by
  have quiet := quiet_pause warmup (conditions.timerFirst 0) scene
  simp only [warmAndBroadcast]
  split
  · have tail : Publication conditions.failOn ticks.length 0 ticks (.interrupted 0) [] :=
      publication_unsent ticks.length rfl rfl rfl nofun nofun
    have all := publication_quiet quiet tail
    rw [List.append_nil] at all
    refine ⟨all, ?_⟩
    intro k ends
    cases ends
    cases ticks with
    | nil => exact .inr rfl
    | cons tick more => exact .inl (Nat.succ_pos more.length)
  · obtain ⟨tail, interrupted⟩ := broadcast_publication conditions delay ticks
      (pause warmup (conditions.timerFirst 0) scene).scene
    exact ⟨publication_quiet quiet tail, fun k ends => .inl (interrupted k ends)⟩

def Act.isSend : Act → Bool
  | .send _ => true
  | _ => false

def payloads (trace : List Happening) : Nat := (acts trace).countP Act.isSend

theorem countP_calls (ticks : List Tick) {ending : Ending} (bound : ending.sent ≤ ticks.length) :
    ((ticks.take ending.sent).map (fun tick => Act.send tick.wire) ++ ending.refusal).countP
      Act.isSend = ending.sent := by
  have sends : ((ticks.take ending.sent).map fun tick => Act.send tick.wire).countP Act.isSend =
      ending.sent := by
    rw [List.countP_eq_length.mpr fun act member => ?_]
    · simp [bound]
    · obtain ⟨tick, _, rfl⟩ := List.mem_map.mp member
      rfl
  have refusal : ending.refusal.countP Act.isSend = 0 := by cases ending <;> rfl
  rw [List.countP_append, sends, refusal]
  rfl

def sentLines (trace : List Happening) : List Log.Entry :=
  (entries trace).filter fun entry => entry.event == "dispatch.sent"

/-- The calls on the channel up to its close, the lines of the sends and the ending of a run agree on
    how many of the ticks were sent. -/
structure Published (conditions : Conditions) (ticks : List Tick) (ending : Ending)
    (trace : List Happening) : Prop where
  sent_le : ending.sent ≤ ticks.length
  acts_eq : acts trace =
    (ticks.take ending.sent).map (fun tick => .send tick.wire) ++ ending.refusal
  lines_eq : sentLines trace = (ticks.take ending.sent).mapIdx fun i tick =>
    sentLine (i + 1) ticks.length tick.wire
  completed : ∀ k, ending = .completed k → k = ticks.length
  refused : ∀ k, ending = .refused k → k < ticks.length ∧ conditions.failOn = some (k + 1)

def Act.payload? : Act → Option String
  | .send payload => some payload
  | _ => none

def sentPayloads (trace : List Happening) : List String := (acts trace).filterMap Act.payload?

theorem sentPayloads_eq {conditions : Conditions} {ticks : List Tick} {ending : Ending}
    {trace : List Happening} (run : Published conditions ticks ending trace) :
    sentPayloads trace = (ticks.take ending.sent).map Tick.wire := by
  have none : ending.refusal.filterMap Act.payload? = [] := by cases ending <;> rfl
  rw [sentPayloads, run.acts_eq, List.filterMap_append, none, List.filterMap_map, List.append_nil]
  exact congrFun List.filterMap_eq_map _

theorem sentLines_eq (trace : List Happening) :
    sentLines trace = (feedLines trace).filter fun entry => entry.event == "dispatch.sent" := by
  simp only [sentLines, feedLines, List.filter_filter]
  apply List.filter_congr
  intro entry _
  cases same : entry.event == "dispatch.sent" with
  | false => rfl
  | true => simp [isSignalLine, eq_of_beq same]

theorem sentLine_lines (total first : Nat) (ticks : List Tick) :
    (ticks.mapIdx fun i tick => sentLine (first + i + 1) total tick.wire).filter
        (fun entry => entry.event == "dispatch.sent") =
      ticks.mapIdx fun i tick => sentLine (first + i + 1) total tick.wire := by
  apply List.filter_eq_self.mpr
  intro entry member
  obtain ⟨i, inside, rfl⟩ := List.mem_mapIdx.mp member
  simp [sentLine]

theorem published_of_publication {conditions : Conditions} {ticks : List Tick} {ending : Ending}
    {trace : List Happening}
    (run : Publication conditions.failOn ticks.length 0 ticks ending trace) :
    Published conditions ticks ending trace where
  sent_le := by simpa using run.to_le
  acts_eq := by simpa using run.acts_eq
  lines_eq := by
    have lines := sentLine_lines ticks.length 0 (ticks.take ending.sent)
    rw [sentLines_eq, run.lines_eq, Nat.sub_zero, lines]
    simp only [Nat.zero_add]
  completed := by simpa using run.completed
  refused := by simpa using run.refused

theorem acts_closing (time : Nat) (closing : List Log.Entry) :
    acts (.closed time :: closing.map .logged) = [.close] := by
  rw [← List.singleton_append, acts_append, acts_logged]
  rfl

theorem published_warmingUp (warmup : Duration) {conditions : Conditions} {ticks : List Tick}
    {ending : Ending} {trace : List Happening} (run : Published conditions ticks ending trace) :
    Published conditions ticks ending (.logged (warmingUp warmup) :: trace) where
  sent_le := run.sent_le
  acts_eq := run.acts_eq
  lines_eq := by
    have skip : sentLines (.logged (warmingUp warmup) :: trace) = sentLines trace := by
      simp [sentLines, entries, warmingUp]
    rw [skip, run.lines_eq]
  completed := run.completed
  refused := run.refused

/-- A broadcast sends a first part of the ticks in order, each once, and after a refused send nothing
    more. A replay does the same and then closes the channel once, as its last call. Only a replay of
    nothing can be interrupted when nothing is left to send. -/
theorem replay_publishes (conditions : Conditions) (warmup delay : Duration) (ticks : List Tick)
    (scene : Scene) :
    let dispatched := broadcast conditions delay ticks scene
    let replayed := replay conditions warmup delay ticks scene
    (Published conditions ticks dispatched.ending dispatched.trace ∧
      ∀ k, dispatched.ending = .interrupted k → k < ticks.length) ∧
    (∃ front, replayed.trace =
        front ++ .closed replayed.scene.now :: conditions.closing.map .logged ∧
      Published conditions ticks replayed.ending front ∧
      acts replayed.trace = acts front ++ [.close]) ∧
    ∀ k, replayed.ending = .interrupted k → k < ticks.length ∨ ticks = [] := by
  obtain ⟨dispatched, unsent⟩ := broadcast_publication conditions delay ticks scene
  obtain ⟨warmed, left⟩ := warmAndBroadcast_publication conditions warmup delay ticks scene
  have front := published_warmingUp warmup (published_of_publication warmed)
  have trace : (replay conditions warmup delay ticks scene).trace =
      .logged (warmingUp warmup) :: (warmAndBroadcast conditions warmup delay ticks scene).trace ++
        .closed (replay conditions warmup delay ticks scene).scene.now ::
          conditions.closing.map .logged := rfl
  refine ⟨⟨published_of_publication dispatched, unsent⟩, ⟨_, trace, front, ?_⟩, left⟩
  rw [trace, acts_append, acts_closing]

end TickReplay.Feed
