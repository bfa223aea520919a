import TickReplay.Proofs.Feed.Interruption

/- What a signal shows. A controller that only passes on signals is gone behind the first one, so a run
   logs at most one, behind all of its sends, and it ends interrupted if it has ticks left. -/
namespace TickReplay.Feed

def signalText : Signal → String
  | .interrupt => "SIGINT"
  | .terminate => "SIGTERM"

def signalLines (signals : List Signal) : List Log.Entry := signals.map fun signal =>
  ⟨.warn, "signal.received", "Interruption received, stopping replay",
    .object [("signal", .text (signalText signal))]⟩

theorem signalLines_single (signal : Signal) : signalLines [signal] = [signalReceived signal] := by
  cases signal <;> rfl

def OnlySignals (pending : List Timed) : Prop :=
  ∀ timed ∈ pending, ∃ signal, timed.change = .signal signal

/-- The watch behind a signal: it holds the interruption for good. -/
structure Signalled (watch : Watch) : Prop where
  request_eq : watch.request = .interrupt
  connected_eq : watch.connected = false

theorem Signalled.apply {watch : Watch} (signalled : Signalled watch) (change : Change) :
    watch.apply change = watch ∧ watch.entries change = [] := by
  have gone := signalled.connected_eq
  constructor
  · simp [Watch.apply, gone]
  · cases change <;> simp [Watch.entries, gone]

theorem Signalled.see {watch : Watch} (signalled : Signalled watch) : Signalled watch.see :=
  ⟨signalled.request_eq, signalled.connected_eq⟩

theorem Signalled.wakes {deadline now : Nat} {timerFirst : Bool} {watch left : Watch}
    {waking : Waking} (signalled : Signalled watch)
    (woken : wakes deadline timerFirst now watch = some (waking, left)) : Signalled left := by
  unfold Feed.wakes at woken
  split at woken
  · cases woken
    exact signalled
  split at woken
  · cases woken
    exact signalled.see
  split at woken
  · cases woken
    exact signalled.see
  · cases woken

theorem Signalled.sleep {watch : Watch} (signalled : Signalled watch) (deadline : Nat)
    (timerFirst : Bool) (now : Nat) (pending : List Timed) :
    (sleep deadline timerFirst now watch pending).trace = [] ∧
      Signalled (sleep deadline timerFirst now watch pending).scene.watch := by
  induction pending generalizing now watch with
  | nil =>
    simp only [Feed.sleep]
    split
    · rename_i woken
      exact ⟨rfl, signalled.wakes woken⟩
    · exact ⟨rfl, signalled.see⟩
  | cons timed more ih =>
    obtain ⟨same, silent⟩ := signalled.apply timed.change
    obtain ⟨same', silent'⟩ := signalled.see.apply timed.change
    simp only [Feed.sleep, same, silent, same', silent']
    split
    · exact ih signalled now
    · split
      · rename_i woken
        exact ⟨rfl, signalled.wakes woken⟩
      · split
        · exact ⟨rfl, signalled.see⟩
        · exact ih signalled.see timed.time

abbrev untouched : Watch := Watch.initial .none

inductive Awaits (pending : List Timed) (paused : Paused) : Prop where
  | calm (trace : paused.trace = []) (waking : paused.waking = .elapsed)
      (watch : paused.scene.watch = untouched) (left : paused.scene.pending = pending)
  | signal (signal : Signal) (trace : paused.trace = [.logged (signalReceived signal)])
      (signalled : Signalled paused.scene.watch)

theorem awaits_sleep {pending : List Timed} (signals : OnlySignals pending) (deadline : Nat)
    (timerFirst : Bool) (now : Nat) :
    Awaits pending (sleep deadline timerFirst now untouched pending) := by
  have wake : ∀ now waking left,
      wakes deadline timerFirst now untouched = some (waking, left) →
      waking = .elapsed ∧ left = untouched := by
    intro now waking left woken
    unfold wakes at woken
    split at woken
    · cases woken
      exact ⟨rfl, rfl⟩
    split at woken
    · contradiction
    split at woken
    · cases woken
      exact ⟨rfl, rfl⟩
    · cases woken
  induction pending generalizing now with
  | nil =>
    simp only [sleep]
    split
    · rename_i woken
      obtain ⟨rfl, rfl⟩ := wake _ _ _ woken
      exact .calm rfl rfl rfl rfl
    · exact .calm rfl rfl rfl rfl
  | cons timed more ih =>
    obtain ⟨signal, change⟩ := signals timed (by simp)
    have arrived : Signalled (untouched.apply (.signal signal)) := ⟨rfl, rfl⟩
    have seen : untouched.see = untouched := rfl
    have line : untouched.entries (.signal signal) = [signalReceived signal] := rfl
    have rest := fun now => arrived.sleep deadline timerFirst now more
    simp only [sleep, change, seen, line]
    split
    · obtain ⟨silent, signalled⟩ := rest now
      exact .signal signal (by simp [Paused.after, silent]) signalled
    · split
      · rename_i woken
        obtain ⟨rfl, rfl⟩ := wake _ _ _ woken
        exact .calm rfl rfl rfl rfl
      · split
        · exact .calm rfl rfl rfl rfl
        · obtain ⟨silent, signalled⟩ := rest timed.time
          exact .signal signal (by simp [Paused.after, silent]) signalled

theorem awaits_pause {scene : Scene} (watch : scene.watch = untouched)
    (signals : OnlySignals scene.pending) (length : Duration) (timerFirst : Bool) :
    Awaits scene.pending (pause length timerFirst scene) := by
  rw [pause, watch]
  exact awaits_sleep signals (pauseEnd scene.now length) timerFirst scene.now

/-- The lines of a run are its own ones and then at most one signal, which interrupts it. A run
    without a signal ends before one is due. -/
structure SignalLast (pending : List Timed) (ticks : List Tick) (signals : List Signal)
    (played : Played) : Prop where
  lines : entries played.trace = feedLines played.trace ++ signalLines signals
  most : signals.length ≤ 1
  ends : signals ≠ [] → ticks ≠ [] → ∃ k, played.ending = .interrupted k
  before : signals = [] → ∀ timed ∈ pending, played.scene.now < timed.time

theorem signalLast_without {pending : List Timed} (ticks : List Tick) {played : Played}
    (lines : entries played.trace = feedLines played.trace)
    (later : ∀ timed ∈ pending, played.scene.now < timed.time) :
    SignalLast pending ticks [] played :=
  ⟨by simp [signalLines, lines], Nat.zero_le 1, fun some => absurd rfl some, fun _ => later⟩

theorem signalLast_behind {pending : List Timed} {ticks more : List Tick} {signals : List Signal}
    {front : List Happening} {played : Played} (lines : entries front = feedLines front)
    (left : ticks ≠ [] → more ≠ []) (tail : SignalLast pending more signals played) :
    SignalLast pending ticks signals (played.after front) := by
  refine ⟨?_, tail.most, fun some unsent => tail.ends some (left unsent), tail.before⟩
  simp only [Played.after, entries_append, feedLines_append, lines, tail.lines, List.append_assoc]

theorem signalLast_signal (pending : List Timed) {ticks : List Tick} {signal : Signal}
    {played : Played} (trace : played.trace = [.logged (signalReceived signal)])
    (ends : ticks ≠ [] → ∃ k, played.ending = .interrupted k) :
    SignalLast pending ticks [signal] played := by
  refine ⟨?_, Nat.le_refl 1, fun _ => ends, nofun⟩
  simp [trace, entries, feedLines, isSignalLine_signalReceived, signalLines_single]

theorem broadcastFrom_signalled (conditions : Conditions) (delay : Duration) (total sent : Nat)
    {scene : Scene} (signalled : Signalled scene.watch) (ticks : List Tick) :
    let played := broadcastFrom conditions delay total sent scene ticks
    played.trace = [] ∧ (ticks ≠ [] → ∃ k, played.ending = .interrupted k) := by
  cases ticks with
  | nil => exact ⟨rfl, fun some => absurd rfl some⟩
  | cons tick more =>
    have held : scene.watch.see.request = .interrupt := signalled.request_eq
    simp only [broadcastFrom, held, ↓reduceIte]
    exact ⟨trivial, fun _ => ⟨sent, rfl⟩⟩

theorem signalLast_arrived (conditions : Conditions) (delay : Duration) (total sent : Nat)
    (pending : List Timed) {paused : Paused} {signal : Signal}
    (trace : paused.trace = [.logged (signalReceived signal)])
    (signalled : Signalled paused.scene.watch) (ticks : List Tick) :
    SignalLast pending ticks [signal] ⟨.interrupted sent, paused.scene, paused.trace⟩ ∧
      SignalLast pending ticks [signal]
        ((broadcastFrom conditions delay total sent paused.scene ticks).after paused.trace) := by
  obtain ⟨silent, ends⟩ := broadcastFrom_signalled conditions delay total sent signalled ticks
  constructor
  · exact signalLast_signal pending trace fun _ => ⟨sent, rfl⟩
  · refine signalLast_signal pending ?_ ends
    simp only [Played.after, silent, trace, List.append_nil]

theorem sendTick_alone {conditions : Conditions} (inside : conditions.onSend = [])
    (total index : Nat) (tick : Tick) (scene : Scene) :
    let next := sendTick conditions total index tick scene
    entries next.2 = feedLines next.2 ∧ next.1 = scene := by
  have none : conditions.changesIn index = [] := by simp [Conditions.changesIn, inside]
  constructor
  · rw [sendTick_feedLines]
    simp [sendTick, none, Watch.applyAll, entries]
  · simp [sendTick, none, Watch.applyAll]

theorem broadcastFrom_signalLast {conditions : Conditions} (inside : conditions.onSend = [])
    (delay : Duration) (total sent : Nat) {scene : Scene} (watch : scene.watch = untouched)
    (signals : OnlySignals scene.pending) (ordered : InOrder scene.pending)
    (later : ∀ timed ∈ scene.pending, scene.now < timed.time) (ticks : List Tick) :
    ∃ received, SignalLast scene.pending ticks received
      (broadcastFrom conditions delay total sent scene ticks) := by
  induction ticks generalizing sent scene with
  | nil => exact ⟨[], signalLast_without _ rfl later⟩
  | cons tick more ih =>
    have looked : ({ scene with watch := scene.watch.see } : Scene) = scene := by
      cases scene
      subst watch
      rfl
    simp only [broadcastFrom, looked]
    split
    · exact ⟨[], signalLast_without _ rfl later⟩
    split
    · exact ⟨[], signalLast_without _ rfl later⟩
    obtain ⟨lines, same⟩ := sendTick_alone inside total (sent + 1) tick scene
    rw [same]
    split
    · exact ⟨[], signalLast_without _ lines later⟩
    rename_i rest
    have left : tick :: more ≠ [] → more ≠ [] := fun _ none => rest (List.isEmpty_iff.mpr none)
    have slept := pause_slept delay (conditions.timerFirst (sent + 1)) scene ordered
      (fun timed member => Nat.le_of_lt (later timed member))
    have awaits := awaits_pause watch signals delay (conditions.timerFirst (sent + 1))
    generalize pause delay (conditions.timerFirst (sent + 1)) scene = paused at slept awaits ⊢
    cases awaits with
    | calm trace waking watch' pending =>
      -- Nothing was due in the pause, so the schedule is the same as before it.
      have later' := (elapsed_pending slept waking ordered).2
      obtain ⟨received, tail⟩ := ih (sent + 1) watch' (by rw [pending]; exact signals)
        (by rw [pending]; exact ordered) later'
      simp only [waking, trace, List.append_nil]
      rw [pending] at tail
      exact ⟨received, signalLast_behind lines left tail⟩
    | signal signal trace signalled =>
      obtain ⟨cut, given_up⟩ := signalLast_arrived conditions delay total (sent + 1) scene.pending
        trace signalled more
      split
      · exact ⟨[signal], signalLast_behind lines left cut⟩
      · have whole := signalLast_behind lines left given_up
        simp only [Played.after, ← List.append_assoc] at whole ⊢
        exact ⟨[signal], whole⟩

theorem warmAndBroadcast_signalLast {conditions : Conditions} (inside : conditions.onSend = [])
    (warmup delay : Duration) {scene : Scene} (watch : scene.watch = untouched)
    (signals : OnlySignals scene.pending) (ordered : InOrder scene.pending)
    (later : ∀ timed ∈ scene.pending, scene.now ≤ timed.time) (ticks : List Tick) :
    ∃ received, SignalLast scene.pending ticks received
      (warmAndBroadcast conditions warmup delay ticks scene) := by
  have slept := pause_slept warmup (conditions.timerFirst 0) scene ordered later
  simp only [warmAndBroadcast]
  cases awaits_pause watch signals warmup (conditions.timerFirst 0) with
  | calm trace waking watch' pending =>
    have later' := (elapsed_pending slept waking ordered).2
    obtain ⟨received, tail⟩ := broadcastFrom_signalLast inside delay ticks.length 0 watch'
      (by rw [pending]; exact signals) (by rw [pending]; exact ordered) later' ticks
    simp only [waking, trace]
    rw [pending] at tail
    exact ⟨received, tail⟩
  | signal signal trace signalled =>
    obtain ⟨cut, given_up⟩ := signalLast_arrived conditions delay ticks.length 0 scene.pending trace
      signalled ticks
    split
    · exact ⟨[signal], cut⟩
    · exact ⟨[signal], given_up⟩

end TickReplay.Feed
