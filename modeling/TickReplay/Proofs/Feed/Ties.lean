import TickReplay.Feed.Broadcast
import TickReplay.Proofs.Feed.Pause

/- Ties of a pause. When its time is up at an instant at which the watch has news, a feed may go on by
   either. The runs that are free to choose at every turn all show the same: a change that the timer
   has left unseen is found by the look before the next send. -/
namespace TickReplay.Feed

/-- The turns of a waiting feed at one instant. Each takes a side that is ready: the timer once it is
    due, or news of the watch, and idle news makes it turn again. -/
inductive Turns (deadline now : Nat) : Watch → Option Waking → Watch → Prop where
  | timer {watch : Watch} (due : deadline ≤ now) : Turns deadline now watch (some .elapsed) watch
  | asked {watch : Watch} (asks : watch.interrupted) :
      Turns deadline now watch (some .interrupted) watch.see
  | idle {watch left : Watch} {waking : Option Waking} (unseen : watch.unseen)
      (nothing : watch.request = .none) (again : Turns deadline now watch.see waking left) :
      Turns deadline now watch waking left
  | waits {watch : Watch} (seen : watch.unseen = false) (early : now < deadline) :
      Turns deadline now watch none watch

/-- A whole wait. The changes of an instant are made before the feed turns; while it waits, time passes
    up to the next change or the deadline. Once it has found the controller gone it only sleeps. -/
inductive Waits (deadline : Nat) : Nat → Watch → List Timed → Paused → Prop where
  | change {now : Nat} {watch : Watch} {timed : Timed} {more : List Timed} {paused : Paused}
      (due : timed.time ≤ now) (rest : Waits deadline now (watch.apply timed.change) more paused) :
      Waits deadline now watch (timed :: more) (paused.after (watch.entries timed.change))
  | wakes {now : Nat} {watch left : Watch} {pending : List Timed} {waking : Waking}
      (later : ∀ timed ∈ pending.head?, now < timed.time)
      (turns : Turns deadline now watch (some waking) left) :
      Waits deadline now watch pending ⟨waking, ⟨now, left, pending⟩, []⟩
  | passes {now next : Nat} {watch left : Watch} {pending : List Timed} {paused : Paused}
      (turns : Turns deadline now watch none left) (forward : now < next) (inside : next ≤ deadline)
      (before : ∀ timed ∈ pending.head?, next ≤ timed.time)
      (rest : Waits deadline next left pending paused) : Waits deadline now watch pending paused
  | deaf {now : Nat} {watch : Watch} {pending : List Timed} (seen : watch.unseen = false)
      (gone : watch.connected = false) (ahead : now ≤ deadline) :
      Waits deadline now watch pending
        ⟨.elapsed, ⟨deadline, watch, pending.dropWhile fun timed => timed.time ≤ deadline⟩, []⟩

def Pauses (length : Duration) (scene : Scene) (paused : Paused) : Prop :=
  Waits (pauseEnd scene.now length) scene.now scene.watch scene.pending paused

def Scene.looked (scene : Scene) : Scene := { scene with watch := scene.watch.see }

inductive Broadcasts (conditions : Conditions) (delay : Duration) (total : Nat) :
    Nat → Scene → List Tick → Played → Prop where
  | nothing {sent : Nat} {scene : Scene} :
      Broadcasts conditions delay total sent scene [] ⟨.completed sent, scene, []⟩
  | stopped {sent : Nat} {scene : Scene} {tick : Tick} {more : List Tick}
      (asked : scene.watch.request = .interrupt) :
      Broadcasts conditions delay total sent scene (tick :: more) ⟨.interrupted sent, scene.looked, []⟩
  | refused {sent : Nat} {scene : Scene} {tick : Tick} {more : List Tick}
      (calm : scene.watch.request = .none) (fails : conditions.failOn = some (sent + 1)) :
      Broadcasts conditions delay total sent scene (tick :: more)
        ⟨.refused sent, scene.looked, [.refused scene.now]⟩
  | last {sent : Nat} {scene behind : Scene} {tick : Tick} {trace : List Happening}
      (calm : scene.watch.request = .none) (accepts : conditions.failOn ≠ some (sent + 1))
      (send : sendTick conditions total (sent + 1) tick scene.looked = (behind, trace)) :
      Broadcasts conditions delay total sent scene [tick] ⟨.completed (sent + 1), behind, trace⟩
  | cut {sent : Nat} {scene behind : Scene} {tick : Tick} {more : List Tick}
      {trace : List Happening} {paused : Paused}
      (calm : scene.watch.request = .none) (accepts : conditions.failOn ≠ some (sent + 1))
      (send : sendTick conditions total (sent + 1) tick scene.looked = (behind, trace))
      (unsent : more ≠ []) (pause : Pauses delay behind paused)
      (woken : paused.waking = .interrupted) :
      Broadcasts conditions delay total sent scene (tick :: more)
        ⟨.interrupted (sent + 1), paused.scene, trace ++ paused.trace⟩
  | next {sent : Nat} {scene behind : Scene} {tick : Tick} {more : List Tick}
      {trace : List Happening} {paused : Paused} {played : Played}
      (calm : scene.watch.request = .none) (accepts : conditions.failOn ≠ some (sent + 1))
      (send : sendTick conditions total (sent + 1) tick scene.looked = (behind, trace))
      (unsent : more ≠ []) (pause : Pauses delay behind paused) (slept : paused.waking = .elapsed)
      (rest : Broadcasts conditions delay total (sent + 1) paused.scene more played) :
      Broadcasts conditions delay total sent scene (tick :: more)
        (played.after (trace ++ paused.trace))

def Dispatches (conditions : Conditions) (delay : Duration) (ticks : List Tick) (scene : Scene)
    (played : Played) : Prop :=
  Broadcasts conditions delay ticks.length 0 scene ticks played

inductive WarmsUp (conditions : Conditions) (warmup delay : Duration) (ticks : List Tick)
    (scene : Scene) : Played → Prop where
  | cut {paused : Paused} (pause : Pauses warmup scene paused)
      (woken : paused.waking = .interrupted) :
      WarmsUp conditions warmup delay ticks scene ⟨.interrupted 0, paused.scene, paused.trace⟩
  | next {paused : Paused} {played : Played} (pause : Pauses warmup scene paused)
      (slept : paused.waking = .elapsed) (rest : Dispatches conditions delay ticks paused.scene played) :
      WarmsUp conditions warmup delay ticks scene (played.after paused.trace)

def Replays (conditions : Conditions) (warmup delay : Duration) (ticks : List Tick) (scene : Scene)
    (played : Played) : Prop :=
  ∃ warmed, WarmsUp conditions warmup delay ticks scene warmed ∧
    played = (warmed.close conditions.closing).after [.logged (warmingUp warmup)]

theorem see_of_seen {watch : Watch} (seen : watch.unseen = false) : watch.see = watch := by
  cases watch
  cases seen
  rfl

theorem request_of_calm {watch : Watch} (calm : watch.interrupted = false) (unseen : watch.unseen) :
    watch.request = .none := by
  have agrees := agrees_see calm
  rcases agrees.unseen_eq with same | nothing
  · rw [unseen] at same
    cases same
  · exact nothing

theorem request_of_interrupted {watch : Watch} (asks : watch.interrupted) :
    watch.request = .interrupt := by
  simp only [Watch.interrupted, Bool.and_eq_true, beq_iff_eq] at asks
  exact asks.2

inductive Turned (deadline now : Nat) (watch : Watch) : Option Waking → Watch → Prop where
  | late (due : deadline ≤ now) {left : Watch} (same : left.see = watch.see) :
      Turned deadline now watch (some .elapsed) left
  | asked (asks : watch.interrupted) : Turned deadline now watch (some .interrupted) watch.see
  | early (before : now < deadline) (calm : watch.interrupted = false) :
      Turned deadline now watch none watch.see

theorem turned_of_turns {deadline now : Nat} {watch left : Watch} {waking : Option Waking}
    (turns : Turns deadline now watch waking left) : Turned deadline now watch waking left := by
  induction turns with
  | timer due => exact .late due rfl
  | asked asks => exact .asked asks
  | @idle watch left waking unseen nothing again ih =>
    cases ih with
    | late due same => exact .late due same
    | asked asks => cases asks
    | early before calm => exact .early before (interrupted_of_none nothing)
  | @waits watch seen early =>
    have calm : watch.interrupted = false := by rw [Watch.interrupted, seen, Bool.false_and]
    have turned : Turned deadline now watch none watch.see := .early early calm
    rwa [see_of_seen seen] at turned

theorem turns_look {deadline now : Nat} {watch : Watch} {waking : Option Waking}
    (calm : watch.interrupted = false) (turns : Turns deadline now watch.see waking watch.see) :
    Turns deadline now watch waking watch.see := by
  cases mark : watch.unseen with
  | false => rwa [see_of_seen mark] at turns ⊢
  | true => exact .idle mark (request_of_calm calm mark) turns

theorem turns_of_wakes {deadline now : Nat} {timerFirst : Bool} {watch left : Watch}
    {waking : Waking} (woken : wakes deadline timerFirst now watch = some (waking, left)) :
    Turns deadline now watch (some waking) left := by
  unfold wakes at woken
  split at woken
  · rename_i due
    simp only [Bool.and_eq_true, decide_eq_true_eq] at due
    cases woken
    exact .timer due.1
  split at woken
  · rename_i asks
    cases woken
    exact .asked asks
  · rename_i calm
    split at woken
    · rename_i due
      cases woken
      exact turns_look (Bool.eq_false_iff.mpr calm) (.timer due)
    · cases woken

theorem turns_of_asleep {deadline now : Nat} {timerFirst : Bool} {watch : Watch}
    (asleep : wakes deadline timerFirst now watch = none) :
    now < deadline ∧ Turns deadline now watch none watch.see := by
  obtain ⟨early, calm⟩ := wakes_none asleep
  exact ⟨early, turns_look calm (.waits rfl early)⟩

/-- What is certain of a pause however its ties go: the watch once it is looked at, the time, the
    changes to come and the lines. Who is woken early finds the interruption there. -/
structure Settles (paused : Paused) (scene : Scene) (trace : List Happening) : Prop where
  scene_eq : paused.scene.looked = scene
  trace_eq : paused.trace = trace
  cut : paused.waking = .interrupted →
    paused.scene.looked = paused.scene ∧ paused.scene.watch.request = .interrupt

theorem Settles.after {paused : Paused} {scene : Scene} {trace : List Happening}
    (settles : Settles paused scene trace) (entries : List Log.Entry) :
    Settles (paused.after entries) scene (entries.map .logged ++ trace) where
  scene_eq := settles.scene_eq
  trace_eq := by rw [Paused.after, settles.trace_eq]
  cut := settles.cut

theorem settles_turned {deadline now : Nat} {watch left : Watch} {waking : Waking}
    (turns : Turns deadline now watch (some waking) left) (pending : List Timed) :
    Settles ⟨waking, ⟨now, left, pending⟩, []⟩ ⟨now, watch.see, pending⟩ [] := by
  cases turned_of_turns turns with
  | late due same => exact ⟨by simp only [Scene.looked, same], rfl, nofun⟩
  | asked asks =>
    have request := request_of_interrupted asks
    exact ⟨rfl, rfl, fun _ => ⟨rfl, request⟩⟩

theorem sleep_woken {deadline now : Nat} {timerFirst : Bool} {watch left : Watch} {waking : Waking}
    {pending : List Timed} (later : ∀ timed ∈ pending.head?, now < timed.time)
    (woken : wakes deadline timerFirst now watch = some (waking, left)) :
    sleep deadline timerFirst now watch pending = ⟨waking, ⟨now, left, pending⟩, []⟩ := by
  cases pending with
  | nil => simp only [sleep, woken]
  | cons timed more =>
    have ahead : ¬ timed.time ≤ now := Nat.not_le.mpr (later timed rfl)
    simp only [sleep, ahead, woken, ↓reduceIte]

theorem wakes_seen (deadline now : Nat) (timerFirst : Bool) (watch : Watch) :
    wakes deadline timerFirst now watch.see =
      if deadline ≤ now then some (.elapsed, watch.see) else none := by
  have calm : watch.see.interrupted = false := rfl
  have again : watch.see.see = watch.see := see_of_seen rfl
  by_cases due : deadline ≤ now
  · cases timerFirst <;> simp [wakes, due, calm, again]
  · simp [wakes, due, calm]

theorem sleep_passes {deadline now next : Nat} (timerFirst : Bool) {watch : Watch}
    {pending : List Timed} (calm : watch.interrupted = false) (forward : now < next)
    (inside : next ≤ deadline) (before : ∀ timed ∈ pending.head?, next ≤ timed.time) :
    sleep deadline timerFirst now watch pending =
      sleep deadline timerFirst next watch.see pending := by
  have early : ¬ deadline ≤ now := by omega
  have asleep : wakes deadline timerFirst now watch = none := by simp [wakes, calm, early]
  have twice : watch.see.see = watch.see := rfl
  cases pending with
  | nil =>
    simp only [sleep, asleep, wakes_seen]
    by_cases due : deadline ≤ next
    · cases Nat.le_antisymm inside due
      simp only [Nat.le_refl, ↓reduceIte]
    · simp only [due, ↓reduceIte, twice]
  | cons timed more =>
    have ahead : next ≤ timed.time := before timed rfl
    have later : ¬ timed.time ≤ now := by omega
    simp only [sleep, later, asleep, wakes_seen, ↓reduceIte]
    by_cases here : timed.time ≤ next
    · have same : timed.time = next := Nat.le_antisymm here ahead
      have reached : ¬ deadline < next := Nat.not_lt.mpr inside
      simp only [same, reached, Nat.le_refl, ↓reduceIte]
    · simp only [here, ↓reduceIte]
      by_cases due : deadline ≤ next
      · cases Nat.le_antisymm inside due
        have past : deadline < timed.time := Nat.not_le.mp here
        simp only [past, Nat.le_refl, ↓reduceIte]
      · simp only [due, ↓reduceIte, twice]

theorem apply_of_gone {watch : Watch} (gone : watch.connected = false) (change : Change) :
    watch.apply change = watch ∧ watch.entries change = [] := by
  constructor
  · simp [Watch.apply, gone]
  · cases change <;> simp [Watch.entries, gone]

theorem sleep_of_gone {deadline now : Nat} (timerFirst : Bool) {watch : Watch}
    (seen : watch.unseen = false) (gone : watch.connected = false) (ahead : now ≤ deadline)
    (pending : List Timed) : sleep deadline timerFirst now watch pending =
      ⟨.elapsed, ⟨deadline, watch, pending.dropWhile fun timed => timed.time ≤ deadline⟩, []⟩ := by
  have look := see_of_seen seen
  have awake (now : Nat) : wakes deadline timerFirst now watch =
      if deadline ≤ now then some (.elapsed, watch) else none := by
    rw [← look, wakes_seen]
  induction pending generalizing now with
  | nil =>
    simp only [sleep, awake, look, List.dropWhile_nil]
    by_cases due : deadline ≤ now
    · cases Nat.le_antisymm ahead due
      simp only [Nat.le_refl, ↓reduceIte]
    · simp only [due, ↓reduceIte]
  | cons timed more ih =>
    obtain ⟨same, silent⟩ := apply_of_gone gone timed.change
    simp only [sleep, awake, look, same, silent, List.dropWhile_cons, decide_eq_true_eq]
    by_cases here : timed.time ≤ now
    · simp only [here, Nat.le_trans here ahead, ↓reduceIte, ih ahead]
      rfl
    · by_cases due : deadline ≤ now
      · cases Nat.le_antisymm ahead due
        simp only [here, Nat.le_refl, ↓reduceIte]
      · by_cases inside : timed.time ≤ deadline
        · have reached : ¬ deadline < timed.time := by omega
          simp only [here, due, inside, reached, ↓reduceIte, ih inside]
          rfl
        · have past : deadline < timed.time := by omega
          simp only [here, due, inside, past, ↓reduceIte]

theorem waits_settles {deadline now : Nat} {watch : Watch} {pending : List Timed} {paused : Paused}
    (waits : Waits deadline now watch pending paused) (timerFirst : Bool) :
    Settles paused (sleep deadline timerFirst now watch pending).scene.looked
      (sleep deadline timerFirst now watch pending).trace := by
  induction waits with
  | change due rest ih =>
    simp only [sleep, due, ↓reduceIte]
    exact ih.after _
  | @wakes now watch left pending waking later turns =>
    have ready : deadline ≤ now ∨ watch.interrupted := by
      cases turned_of_turns turns with
      | late due same => exact .inl due
      | asked asks => exact .inr asks
    cases awake : wakes deadline timerFirst now watch with
    | none =>
      obtain ⟨early, calm⟩ := wakes_none awake
      rcases ready with due | asks
      · omega
      · rw [asks] at calm
        cases calm
    | some result =>
      have slept := sleep_woken later awake
      have own := (settles_turned (turns_of_wakes awake) pending).scene_eq
      rw [slept]
      dsimp only at own ⊢
      rw [own]
      exact settles_turned turns pending
  | passes turns forward inside before rest ih =>
    cases turned_of_turns turns with
    | early _ calm =>
      rw [sleep_passes timerFirst calm forward inside before]
      exact ih
  | deaf seen gone ahead =>
    rw [sleep_of_gone timerFirst seen gone ahead]
    exact ⟨rfl, rfl, fun ended => by cases ended⟩

theorem sleep_waits {deadline now : Nat} (timerFirst : Bool) (watch : Watch)
    (pending : List Timed) (ahead : now ≤ deadline) :
    Waits deadline now watch pending (sleep deadline timerFirst now watch pending) := by
  induction pending generalizing now watch with
  | nil =>
    have nobody : ∀ time, ∀ timed ∈ ([] : List Timed).head?, time < timed.time := by simp
    cases awake : wakes deadline timerFirst now watch with
    | some result =>
      rw [sleep_woken (nobody now) awake]
      exact .wakes (nobody now) (turns_of_wakes awake)
    | none =>
      obtain ⟨early, waiting⟩ := turns_of_asleep awake
      simp only [sleep, awake]
      refine .passes waiting early (Nat.le_refl _) (by simp) ?_
      exact .wakes (nobody deadline) (.timer (Nat.le_refl _))
  | cons timed more ih =>
    by_cases due : timed.time ≤ now
    · simp only [sleep, due, ↓reduceIte]
      exact .change due (ih _ ahead)
    · have later : ∀ other ∈ (timed :: more).head?, now < other.time := by
        intro other first
        cases Option.mem_some.mp first
        exact Nat.not_le.mp due
      cases awake : wakes deadline timerFirst now watch with
      | some result =>
        rw [sleep_woken later awake]
        exact .wakes later (turns_of_wakes awake)
      | none =>
        obtain ⟨early, waiting⟩ := turns_of_asleep awake
        simp only [sleep, due, awake, ↓reduceIte]
        by_cases past : deadline < timed.time
        · have later : ∀ other ∈ (timed :: more).head?, deadline < other.time := by
            intro other first
            cases Option.mem_some.mp first
            exact past
          simp only [past, ↓reduceIte]
          refine .passes waiting early (Nat.le_refl _) (fun other first => ?_) ?_
          · exact Nat.le_of_lt (later other first)
          · exact .wakes later (.timer (Nat.le_refl _))
        · have inside : timed.time ≤ deadline := Nat.not_lt.mp past
          simp only [past, ↓reduceIte]
          refine .passes waiting (Nat.not_le.mp due) inside (fun other first => ?_) ?_
          · cases Option.mem_some.mp first
            exact Nat.le_refl _
          · exact .change (Nat.le_refl _) (ih _ inside)

theorem pause_pauses (length : Duration) (timerFirst : Bool) (scene : Scene) :
    Pauses length scene (pause length timerFirst scene) :=
  sleep_waits timerFirst scene.watch scene.pending (le_pauseEnd scene.now length)

theorem pauses_settles {length : Duration} {scene : Scene} {paused : Paused}
    (pauses : Pauses length scene paused) (timerFirst : Bool) :
    Settles paused (pause length timerFirst scene).scene.looked
      (pause length timerFirst scene).trace :=
  waits_settles pauses timerFirst

variable (conditions : Conditions) (delay : Duration) (total : Nat)

theorem broadcastFrom_looked (sent : Nat) (scene : Scene) {ticks : List Tick} (unsent : ticks ≠ []) :
    broadcastFrom conditions delay total sent scene.looked ticks =
      broadcastFrom conditions delay total sent scene ticks := by
  cases ticks with
  | nil => contradiction
  | cons tick more => rfl

theorem broadcastFrom_asked {sent : Nat} {scene : Scene} (asked : scene.watch.request = .interrupt)
    {ticks : List Tick} (unsent : ticks ≠ []) :
    broadcastFrom conditions delay total sent scene ticks =
      ⟨.interrupted sent, scene.looked, []⟩ := by
  cases ticks with
  | nil => contradiction
  | cons tick more =>
    have same : scene.watch.see.request = .interrupt := asked
    simp only [broadcastFrom, same, ↓reduceIte]
    rfl

/-- To be cut short by an interruption and to find it at the next look is the same. -/
theorem Settles.interrupted {paused : Paused} {scene : Scene} {trace : List Happening}
    (settles : Settles paused scene trace) (woken : paused.waking = .interrupted) (sent : Nat)
    {ticks : List Tick} (unsent : ticks ≠ []) (front : List Happening) :
    (⟨.interrupted sent, paused.scene, front ++ paused.trace⟩ : Played) =
      (broadcastFrom conditions delay total sent scene ticks).after (front ++ trace) := by
  obtain ⟨looked, asked⟩ := settles.cut woken
  rw [← settles.scene_eq, looked, broadcastFrom_asked conditions delay total asked unsent, looked,
    ← settles.trace_eq]
  simp [Played.after]

theorem Settles.elapsed {paused : Paused} {scene : Scene} {trace : List Happening}
    (settles : Settles paused scene trace) (sent : Nat) {ticks : List Tick} (unsent : ticks ≠ [])
    (front : List Happening) :
    (broadcastFrom conditions delay total sent paused.scene ticks).after (front ++ paused.trace) =
      (broadcastFrom conditions delay total sent scene ticks).after (front ++ trace) := by
  rw [← settles.scene_eq, ← settles.trace_eq, broadcastFrom_looked _ _ _ _ _ unsent]

theorem broadcastFrom_calm {scene : Scene} (calm : scene.watch.request = .none) (sent : Nat)
    (tick : Tick) (more : List Tick) :
    broadcastFrom conditions delay total sent scene (tick :: more) =
      if conditions.failOn = some (sent + 1) then
        ⟨.refused sent, scene.looked, [.refused scene.now]⟩
      else
        let (behind, trace) := sendTick conditions total (sent + 1) tick scene.looked
        if more.isEmpty then ⟨.completed (sent + 1), behind, trace⟩
        else
          let paused := pause delay (conditions.timerFirst (sent + 1)) behind
          match paused.waking with
          | .interrupted => ⟨.interrupted (sent + 1), paused.scene, trace ++ paused.trace⟩
          | .elapsed =>
            (broadcastFrom conditions delay total (sent + 1) paused.scene more).after
              (trace ++ paused.trace) := by
  have quiet : scene.watch.see.request ≠ .interrupt := by
    rw [show scene.watch.see.request = scene.watch.request from rfl, calm]
    nofun
  simp only [broadcastFrom, quiet, ↓reduceIte]
  rfl

theorem broadcastFrom_sends {sent : Nat} {scene behind : Scene} {tick : Tick} {more : List Tick}
    {trace : List Happening} (calm : scene.watch.request = .none)
    (accepts : conditions.failOn ≠ some (sent + 1))
    (send : sendTick conditions total (sent + 1) tick scene.looked = (behind, trace))
    (unsent : more ≠ []) :
    let paused := pause delay (conditions.timerFirst (sent + 1)) behind
    broadcastFrom conditions delay total sent scene (tick :: more) =
      (broadcastFrom conditions delay total (sent + 1) paused.scene.looked more).after
        (trace ++ paused.trace) := by
  intro paused
  have some : more.isEmpty = false := List.isEmpty_eq_false_iff.mpr unsent
  have settles := pauses_settles (pause_pauses delay (conditions.timerFirst (sent + 1)) behind)
    (conditions.timerFirst (sent + 1))
  simp only [broadcastFrom_calm conditions delay total calm, accepts, some, send, ↓reduceIte,
    Bool.false_eq_true]
  split
  · rename_i woken
    exact settles.interrupted conditions delay total woken (sent + 1) unsent trace
  · exact settles.elapsed conditions delay total (sent + 1) unsent trace

theorem broadcasts_eq {sent : Nat} {scene : Scene} {ticks : List Tick} {played : Played}
    (run : Broadcasts conditions delay total sent scene ticks played) :
    played = broadcastFrom conditions delay total sent scene ticks := by
  induction run with
  | nothing => rfl
  | stopped asked => exact (broadcastFrom_asked conditions delay total asked (by simp)).symm
  | refused calm fails =>
    rw [broadcastFrom_calm conditions delay total calm, if_pos fails]
  | last calm accepts send =>
    rw [broadcastFrom_calm conditions delay total calm, if_neg accepts, send]
    rfl
  | cut calm accepts send unsent pause woken =>
    rw [broadcastFrom_sends conditions delay total calm accepts send unsent]
    exact (pauses_settles pause _).interrupted conditions delay total woken _ unsent _
  | next calm accepts send unsent pause slept rest ih =>
    rw [broadcastFrom_sends conditions delay total calm accepts send unsent, ih]
    exact (pauses_settles pause _).elapsed conditions delay total _ unsent _

theorem broadcastFrom_broadcasts (sent : Nat) (scene : Scene) (ticks : List Tick) :
    Broadcasts conditions delay total sent scene ticks
      (broadcastFrom conditions delay total sent scene ticks) := by
  induction ticks generalizing sent scene with
  | nil => exact .nothing
  | cons tick more ih =>
    cases asked : scene.watch.request with
    | interrupt =>
      rw [broadcastFrom_asked conditions delay total asked (by simp)]
      exact .stopped asked
    | none =>
      rw [broadcastFrom_calm conditions delay total asked]
      split
      · rename_i fails
        exact .refused asked fails
      rename_i accepts
      dsimp only
      split
      · rename_i last
        cases List.isEmpty_iff.mp last
        exact .last asked accepts rfl
      rename_i rest
      have unsent : more ≠ [] := fun none => rest (List.isEmpty_iff.mpr none)
      have pauses := pause_pauses delay (conditions.timerFirst (sent + 1))
        (sendTick conditions total (sent + 1) tick scene.looked).1
      split
      · rename_i woken
        exact .cut asked accepts rfl unsent pauses woken
      · rename_i slept
        exact .next asked accepts rfl unsent pauses slept (ih _ _)

theorem warmsUp_eq {warmup : Duration} {ticks : List Tick} (unsent : ticks ≠ []) {scene : Scene}
    {played : Played} (run : WarmsUp conditions warmup delay ticks scene played) :
    let paused := pause warmup (conditions.timerFirst 0) scene
    played = (broadcast conditions delay ticks paused.scene.looked).after paused.trace := by
  intro paused
  cases run with
  | cut pause woken =>
    exact (pauses_settles pause _).interrupted conditions delay ticks.length woken 0 unsent []
  | next pause slept rest =>
    rw [broadcasts_eq conditions delay ticks.length rest]
    exact (pauses_settles pause _).elapsed conditions delay ticks.length 0 unsent []

theorem warmAndBroadcast_warmsUp (warmup : Duration) (ticks : List Tick) (scene : Scene) :
    WarmsUp conditions warmup delay ticks scene
      (warmAndBroadcast conditions warmup delay ticks scene) := by
  have pauses := pause_pauses warmup (conditions.timerFirst 0) scene
  unfold warmAndBroadcast
  dsimp only
  split
  · rename_i woken
    exact .cut pauses woken
  · rename_i slept
    exact .next pauses slept (broadcastFrom_broadcasts conditions delay ticks.length 0 _ ticks)

theorem Broadcasts.prefer {sent : Nat} {scene : Scene} {ticks : List Tick} {played : Played}
    {timerFirst : Nat → Bool}
    (run : Broadcasts { conditions with timerFirst } delay total sent scene ticks played) :
    Broadcasts conditions delay total sent scene ticks played := by
  induction run with
  | nothing => exact .nothing
  | stopped asked => exact .stopped asked
  | refused calm fails => exact .refused calm fails
  | last calm accepts send => exact .last calm accepts send
  | cut calm accepts send unsent pause woken => exact .cut calm accepts send unsent pause woken
  | next calm accepts send unsent pause slept rest ih =>
    exact .next calm accepts send unsent pause slept ih

theorem WarmsUp.prefer {warmup : Duration} {ticks : List Tick} {scene : Scene} {played : Played}
    {timerFirst : Nat → Bool}
    (run : WarmsUp { conditions with timerFirst } warmup delay ticks scene played) :
    WarmsUp conditions warmup delay ticks scene played := by
  cases run with
  | cut pause woken => exact .cut pause woken
  | next pause slept rest => exact .next pause slept (Broadcasts.prefer conditions delay _ rest)

/-- Whichever sides the ties of a broadcast go by, and those of a replay that has something to send,
    the run is the same: its sends and their times, its lines, its ending and the time of it. Every run
    of the feed is one of those that are free at each turn. -/
theorem replay_tie_free (warmup : Duration) (ticks : List Tick) (scene : Scene) :
    (∀ timerFirst, Dispatches conditions delay ticks scene
      (broadcast { conditions with timerFirst } delay ticks scene)) ∧
    (∀ timerFirst, Replays conditions warmup delay ticks scene
      (replay { conditions with timerFirst } warmup delay ticks scene)) ∧
    (∀ one other, Dispatches conditions delay ticks scene one →
      Dispatches conditions delay ticks scene other → one = other) ∧
    (ticks ≠ [] → ∀ one other, Replays conditions warmup delay ticks scene one →
      Replays conditions warmup delay ticks scene other → one = other) := by
  refine ⟨?_, ?_, ?_, ?_⟩
  · intro timerFirst
    have run := broadcastFrom_broadcasts { conditions with timerFirst } delay ticks.length 0 scene ticks
    exact Broadcasts.prefer conditions delay ticks.length run
  · intro timerFirst
    have run := warmAndBroadcast_warmsUp { conditions with timerFirst } delay warmup ticks scene
    exact ⟨_, WarmsUp.prefer conditions delay run, rfl⟩
  · intro one other first second
    rw [broadcasts_eq conditions delay ticks.length first,
      broadcasts_eq conditions delay ticks.length second]
  · rintro unsent one other ⟨_, first, rfl⟩ ⟨_, second, rfl⟩
    rw [warmsUp_eq conditions delay unsent first, warmsUp_eq conditions delay unsent second]

/-- An interruption inside a send with no delay behind it, and one at the end of the warm-up: the pauses
    end by different sides, the runs do not. -/
theorem replay_tie_free_zero_delay :
    let tick : Tick := ⟨1, "AAPL", .zero false, .zero false⟩
    let conditions : Conditions := { onSend := [(1, .send .interrupt)] }
    let delay : Duration := ⟨0, 0, by decide⟩
    let warmup : Duration := ⟨0, 5000000, by decide⟩
    let scene : Scene := ⟨0, .initial .none, []⟩
    let behind := (sendTick conditions 2 1 tick scene).1
    let late : Scene := ⟨0, .initial .none, [⟨5000000, .send .interrupt⟩]⟩
    let dispatched (timer : Bool) :=
      broadcast { conditions with timerFirst := fun _ => timer } delay [tick, tick] scene
    let replayed (timer : Bool) :=
      replay { conditions with timerFirst := fun _ => timer } warmup delay [tick, tick] late
    ((pause delay true behind).waking = .elapsed ∧
      (pause delay false behind).waking = .interrupted ∧
      dispatched true = dispatched false ∧ (dispatched true).ending = .interrupted 1) ∧
    (pause warmup true late).waking = .elapsed ∧ (pause warmup false late).waking = .interrupted ∧
      [tick, tick] ≠ [] ∧ replayed true = replayed false ∧
      (replayed true).ending = .interrupted 0 ∧ (replayed true).scene.now = 5000000 := by
  intro tick conditions delay warmup scene behind late dispatched replayed
  obtain ⟨dispatches, _, dispatch, _⟩ :=
    replay_tie_free conditions delay warmup [tick, tick] scene
  obtain ⟨_, replays, _, replay⟩ := replay_tie_free conditions delay warmup [tick, tick] late
  have some : [tick, tick] ≠ [] := by simp
  have same := dispatch (dispatched true) (dispatched false) (dispatches _) (dispatches _)
  have same' := replay some (replayed true) (replayed false) (replays _) (replays _)
  refine ⟨⟨?_, ?_, same, ?_⟩, ?_, ?_, some, same', ?_, ?_⟩ <;> decide +kernel

/- A replay of nothing makes no look behind its warm-up, so there the side shows. -/
example :
    let scene : Scene := ⟨0, .initial .none, [⟨5000000, .send .interrupt⟩]⟩
    let replayed (timer : Bool) := replay { timerFirst := fun _ => timer } ⟨0, 5000000, by decide⟩
      ⟨0, 0, by decide⟩ [] scene
    (replayed true).ending = .completed 0 ∧ (replayed false).ending = .interrupted 0 := by
  decide

end TickReplay.Feed
