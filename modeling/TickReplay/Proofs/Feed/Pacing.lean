import Mathlib.Data.List.Infix
import TickReplay.Proofs.Feed.Promptness

/- When the sends of a run are attempted. They keep the step of one pause from the first on, whatever
   ends the run. Changes that never leave an interruption in the watch wake a pause, but neither
   stretch nor shorten it, so a run under them is the run that nothing disturbs. -/
namespace TickReplay.Feed

def Paced (start step : Nat) (times : List Nat) : Prop :=
  ∀ i time, times[i]? = some time → time = start + i * step

theorem paced_nil (start step : Nat) : Paced start step [] := by
  intro i time found
  simp at found

theorem paced_cons {start step : Nat} {times : List Nat} (tail : Paced (start + step) step times) :
    Paced start step (start :: times) := by
  intro i time found
  cases i with
  | zero => simpa using found.symm
  | succ i =>
    have later := tail i time (by simpa using found)
    rw [later, Nat.succ_mul]
    omega

theorem sleep_elapsed {deadline now : Nat} (timerFirst : Bool) (watch : Watch)
    (pending : List Timed) (ahead : now ≤ deadline)
    (elapsed : (sleep deadline timerFirst now watch pending).waking = .elapsed) :
    (sleep deadline timerFirst now watch pending).scene.now = deadline := by
  have woken_at : ∀ now watch waking left, now ≤ deadline →
      wakes deadline timerFirst now watch = some (waking, left) → waking = .elapsed →
      now = deadline := by
    intro now watch waking left ahead woken elapsed
    subst waking
    have due := (wakes_elapsed woken).1
    omega
  induction pending generalizing now watch with
  | nil =>
    unfold sleep at elapsed ⊢
    split
    · rename_i waking left woken
      rw [woken] at elapsed
      exact woken_at now watch waking left ahead woken elapsed
    · rfl
  | cons timed more ih =>
    unfold sleep at elapsed ⊢
    split
    · rename_i due
      rw [if_pos due] at elapsed
      exact ih (watch.apply timed.change) ahead elapsed
    · rename_i later
      rw [if_neg later] at elapsed
      split
      · rename_i waking left woken
        rw [woken] at elapsed
        exact woken_at now watch waking left ahead woken elapsed
      · rename_i asleep
        rw [asleep] at elapsed
        dsimp only at elapsed ⊢
        split
        · rfl
        · rename_i inside
          rw [if_neg inside] at elapsed
          exact ih (watch.see.apply timed.change) (by omega) elapsed

theorem pause_elapsed (length : Duration) (timerFirst : Bool) (scene : Scene)
    (elapsed : (pause length timerFirst scene).waking = .elapsed) :
    (pause length timerFirst scene).scene.now = pauseEnd scene.now length :=
  sleep_elapsed timerFirst scene.watch scene.pending (le_pauseEnd scene.now length) elapsed

theorem sendTick_attempts (conditions : Conditions) (total index : Nat) (tick : Tick)
    (scene : Scene) : attempts (sendTick conditions total index tick scene).2 = [scene.now] := by
  obtain ⟨lines, trace⟩ := sendTick_trace conditions total index tick scene
  rw [trace, ← List.singleton_append, attempts_append, logged_attempts]
  rfl

theorem pauseEnd_step {now step : Nat} {delay : Duration} (due : Due 0 delay step)
    (whole : now % 1000000 = 0) :
    pauseEnd now delay = now + step ∧ (now + step) % 1000000 = 0 := by
  have step_whole := due.rounded.whole_eq
  constructor
  · rw [pauseEnd_of_whole whole, (pauseEnd_due 0 delay).unique due]
  · omega

/-- A broadcast attempts its sends one pause apart, and it has no pause behind its last one. -/
theorem broadcastFrom_paced (conditions : Conditions) {delay : Duration} {step : Nat}
    (due : Due 0 delay step) (total sent : Nat) {scene : Scene} (whole : scene.now % 1000000 = 0)
    (ticks : List Tick) :
    let played := broadcastFrom conditions delay total sent scene ticks
    Paced scene.now step (attempts played.trace) ∧
      ∀ k, played.ending = .completed k →
        played.scene.now = scene.now + (ticks.length - 1) * step := by
  induction ticks generalizing sent scene with
  | nil =>
    refine ⟨paced_nil _ _, ?_⟩
    intro k _
    simp [broadcastFrom]
  | cons tick more ih =>
    simp only [broadcastFrom]
    split
    · refine ⟨paced_nil _ _, ?_⟩
      intro k ended
      cases ended
    split
    · refine ⟨paced_cons (paced_nil _ _), ?_⟩
      intro k ended
      cases ended
    generalize looked : ({ scene with watch := scene.watch.see } : Scene) = before
    have start : before.now = scene.now := by rw [← looked]
    have send := sendTick_attempts conditions total (sent + 1) tick before
    have here : (sendTick conditions total (sent + 1) tick before).1.now = scene.now := start
    rw [start] at send
    split
    · rename_i last
      have none : more = [] := List.isEmpty_iff.mp last
      refine ⟨by rw [send]; exact paced_cons (paced_nil _ _), ?_⟩
      intro k _
      rw [none]
      simpa using here
    · rename_i rest
      have some : 0 < more.length := List.length_pos_iff.mpr fun none => rest (List.isEmpty_iff.mpr none)
      have quiet := quiet_attempts (quiet_pause delay (conditions.timerFirst (sent + 1))
        (sendTick conditions total (sent + 1) tick before).1)
      obtain ⟨next, nextWhole⟩ := pauseEnd_step due whole
      have wake := pause_elapsed delay (conditions.timerFirst (sent + 1))
        (sendTick conditions total (sent + 1) tick before).1
      rw [here, next] at wake
      split
      · constructor
        · rw [attempts_append, send, quiet, List.append_nil]
          exact paced_cons (paced_nil _ _)
        · intro k ended
          cases ended
      · rename_i elapsed
        have still : (pause delay (conditions.timerFirst (sent + 1))
            (sendTick conditions total (sent + 1) tick before).1).scene.now % 1000000 = 0 := by
          rw [wake elapsed]
          exact nextWhole
        obtain ⟨paced, ends⟩ := ih (sent + 1) still
        rw [wake elapsed] at paced ends
        constructor
        · simp only [Played.after, attempts_append, send, quiet, List.append_nil]
          exact paced_cons paced
        · intro k completed
          have finish := ends k completed
          obtain ⟨n, count⟩ : ∃ n, more.length = n + 1 := ⟨more.length - 1, by omega⟩
          simp only [Played.after, List.length_cons, finish, count, Nat.add_sub_cancel, Nat.succ_mul]
          omega

theorem warmAndBroadcast_paced (conditions : Conditions) {warmup delay : Duration}
    {first step : Nat} (warm : Due 0 warmup first) (due : Due 0 delay step) (ticks : List Tick)
    {scene : Scene} (start : scene.now = 0) :
    let played := warmAndBroadcast conditions warmup delay ticks scene
    Paced first step (attempts played.trace) ∧
      ∀ k, played.ending = .completed k →
        played.scene.now = first + (ticks.length - 1) * step := by
  have quiet := quiet_attempts (quiet_pause warmup (conditions.timerFirst 0) scene)
  have wake := pause_elapsed warmup (conditions.timerFirst 0) scene
  rw [start, (pauseEnd_due 0 warmup).unique warm] at wake
  simp only [warmAndBroadcast]
  split
  · constructor
    · rw [quiet]
      exact paced_nil _ _
    · intro k ended
      cases ended
  · rename_i elapsed
    have whole : (pause warmup (conditions.timerFirst 0) scene).scene.now % 1000000 = 0 := by
      rw [wake elapsed]
      exact warm.rounded.whole_eq
    obtain ⟨paced, ends⟩ := broadcastFrom_paced conditions due ticks.length 0 whole ticks
    rw [wake elapsed] at paced ends
    refine ⟨?_, ends⟩
    simp only [Played.after, attempts_append, quiet, List.nil_append]
    exact paced

/-- No change of a list leaves an interruption in the watch, and none is there before them. A change
    behind the departure of the controller leaves nothing. -/
def Calm (watch : Watch) (changes : List Change) : Prop :=
  ∀ front, front <+: changes → (front.foldl Watch.apply watch).request = .none

instance (watch : Watch) (changes : List Change) : Decidable (Calm watch changes) :=
  decidable_of_iff (∀ front ∈ changes.inits, (front.foldl Watch.apply watch).request = .none) (by
    simp only [List.mem_inits, Calm])

theorem Calm.request_eq {watch : Watch} {changes : List Change} (calm : Calm watch changes) :
    watch.request = .none :=
  calm [] List.nil_prefix

theorem calm_nil {watch : Watch} : Calm watch [] ↔ watch.request = .none := by
  constructor
  · exact Calm.request_eq
  · intro none front inside
    rw [List.prefix_nil.mp inside]
    exact none

theorem calm_cons {watch : Watch} {change : Change} {more : List Change} :
    Calm watch (change :: more) ↔ watch.request = .none ∧ Calm (watch.apply change) more := by
  constructor
  · intro calm
    exact ⟨calm.request_eq, fun front inside =>
      calm (change :: front) (List.cons_prefix_cons.mpr ⟨rfl, inside⟩)⟩
  · rintro ⟨none, calm⟩ front inside
    rcases List.prefix_cons_iff.mp inside with rfl | ⟨rest, rfl, behind⟩
    · exact none
    · exact calm rest behind

theorem calm_append {watch : Watch} {front back : List Change} :
    Calm watch (front ++ back) ↔ Calm watch front ∧ Calm (front.foldl Watch.apply watch) back := by
  induction front generalizing watch with
  | nil =>
    rw [List.nil_append, calm_nil]
    exact ⟨fun calm => ⟨calm.request_eq, calm⟩, fun calm => calm.2⟩
  | cons change front ih =>
    simp only [List.cons_append, calm_cons, List.foldl_cons, ih, and_assoc]

theorem Calm.agrees {watch other : Watch} {changes : List Change} (calm : Calm watch changes)
    (agrees : Agrees watch other) : Calm other changes := by
  intro front inside
  have same := (agrees.foldl front).request_eq
  exact same.symm.trans (calm front inside)

theorem calm_entries {watch : Watch} {change : Change} {more : List Change}
    (calm : Calm watch (change :: more)) : watch.entries change = [] := by
  have left := (calm_cons.mp calm).2.request_eq
  cases change with
  | send request => rfl
  | disconnect => rfl
  | signal signal =>
    simp only [Watch.apply] at left
    split at left
    · rename_i gone
      simpa [Watch.entries] using gone
    · contradiction

theorem calm_applyAll {watch : Watch} {changes : List Change} (calm : Calm watch changes) :
    watch.applyAll changes = (changes.foldl Watch.apply watch, []) := by
  induction changes generalizing watch with
  | nil => rfl
  | cons change more ih =>
    simp only [Watch.applyAll, ih (calm_cons.mp calm).2, calm_entries calm, List.foldl_cons,
      List.append_nil]

def dueBy (time : Nat) (pending : List Timed) : List Change :=
  (pending.filter fun timed => timed.time ≤ time).map Timed.change

def dueAfter (time : Nat) (pending : List Timed) : List Timed :=
  pending.filter fun timed => time < timed.time

structure Undisturbed (deadline : Nat) (watch : Watch) (pending : List Timed) (paused : Paused) :
    Prop where
  waking_eq : paused.waking = .elapsed
  now_eq : paused.scene.now = deadline
  trace_eq : paused.trace = []
  pending_eq : paused.scene.pending = dueAfter deadline pending
  watch_agrees : Agrees ((dueBy deadline pending).foldl Watch.apply watch) paused.scene.watch

theorem none_due {deadline : Nat} {pending : List Timed}
    (later : ∀ timed ∈ pending, deadline < timed.time) :
    dueBy deadline pending = [] ∧ dueAfter deadline pending = pending := by
  constructor
  · rw [dueBy, List.filter_eq_nil_iff.mpr]
    · rfl
    · intro timed member due
      have bound := later timed member
      simp only [decide_eq_true_eq] at due
      omega
  · exact List.filter_eq_self.mpr fun timed member => by simpa using later timed member

theorem due_cons {deadline : Nat} {timed : Timed} (due : timed.time ≤ deadline)
    (more : List Timed) : dueBy deadline (timed :: more) = timed.change :: dueBy deadline more ∧
      dueAfter deadline (timed :: more) = dueAfter deadline more := by
  constructor
  · simp [dueBy, due]
  · simp [dueAfter, due]

theorem calm_wakes {deadline now : Nat} {timerFirst : Bool} {watch left : Watch}
    {waking : Waking} (calm : watch.request = .none)
    (woken : wakes deadline timerFirst now watch = some (waking, left)) :
    waking = .elapsed ∧ deadline ≤ now ∧ Agrees watch left := by
  cases waking with
  | interrupted =>
    have asked := wakes_interrupted woken
    rw [interrupted_of_none calm] at asked
    contradiction
  | elapsed =>
    obtain ⟨due, agrees⟩ := wakes_elapsed woken
    refine ⟨rfl, due, agrees.see_eq.symm, .inr calm⟩

theorem agrees_looked {watch : Watch} (calm : watch.request = .none) : Agrees watch watch.see :=
  ⟨rfl, .inr calm⟩

theorem Undisturbed.behind_change {deadline : Nat} {watch seen : Watch} {timed : Timed}
    {more : List Timed} {paused : Paused}
    (rest : Undisturbed deadline (seen.apply timed.change) more paused)
    (due : timed.time ≤ deadline) (agrees : Agrees watch seen)
    (calm : Calm seen (timed.change :: dueBy deadline more)) :
    Undisturbed deadline watch (timed :: more) (paused.after (seen.entries timed.change)) := by
  obtain ⟨first, later⟩ := due_cons due more
  rw [calm_entries calm]
  refine ⟨rest.waking_eq, rest.now_eq, rest.trace_eq, ?_, ?_⟩
  · rw [later]
    exact rest.pending_eq
  · rw [first]
    exact ((agrees.apply timed.change).foldl (dueBy deadline more)).trans rest.watch_agrees

theorem sleep_undisturbed {deadline now : Nat} (timerFirst : Bool) {watch : Watch}
    {pending : List Timed} (ahead : now ≤ deadline) (ordered : InOrder pending)
    (calm : Calm watch (dueBy deadline pending)) :
    Undisturbed deadline watch pending (sleep deadline timerFirst now watch pending) := by
  induction pending generalizing now watch with
  | nil =>
    unfold sleep
    split
    · rename_i waking left woken
      obtain ⟨rfl, due, agrees⟩ := calm_wakes calm.request_eq woken
      exact ⟨rfl, Nat.le_antisymm ahead due, rfl, rfl, agrees⟩
    · exact ⟨rfl, rfl, rfl, rfl, agrees_looked calm.request_eq⟩
  | cons timed more ih =>
    obtain ⟨first, tail⟩ := List.pairwise_cons.mp ordered
    by_cases due : timed.time ≤ deadline
    · -- The change is made before the deadline, at once or after a first part of the pause.
      rw [(due_cons due more).1] at calm
      have looked := agrees_looked calm.request_eq
      have seen := calm.agrees looked
      unfold sleep
      split
      · exact (ih ahead tail (calm_cons.mp calm).2).behind_change due .rfl calm
      · split
        · rename_i waking left woken
          obtain ⟨_, past, _⟩ := calm_wakes calm.request_eq woken
          omega
        · dsimp only
          rw [if_neg (by omega)]
          exact (ih due tail (calm_cons.mp seen).2).behind_change due looked seen
    · have later : ∀ t ∈ timed :: more, deadline < t.time := by
        intro t member
        rcases List.mem_cons.mp member with rfl | member
        · omega
        · have bound := first t member
          omega
      obtain ⟨none, all⟩ := none_due later
      unfold sleep
      rw [if_neg (by omega)]
      split
      · rename_i waking left woken
        obtain ⟨rfl, due, agrees⟩ := calm_wakes calm.request_eq woken
        exact ⟨rfl, Nat.le_antisymm ahead due, rfl, all.symm, by rw [none]; exact agrees⟩
      · dsimp only
        rw [if_pos (by omega)]
        exact ⟨rfl, rfl, rfl, all.symm, by rw [none]; exact agrees_looked calm.request_eq⟩

/-- The changes that a broadcast makes behind `sent` ticks if nothing stops it, in their order. -/
def changesFrom (conditions : Conditions) (delay : Duration) (sent now : Nat)
    (pending : List Timed) : List Tick → List Change
  | [] => []
  | _ :: more =>
    let next := pauseEnd now delay
    if conditions.failOn = some (sent + 1) then []
    else (conditions.onSend.filter fun made => made.1 == sent + 1).map Prod.snd ++
      if more.isEmpty then []
      else dueBy next pending ++
        changesFrom conditions delay (sent + 1) next (dueAfter next pending) more

def dispatchChanges (conditions : Conditions) (delay : Duration) (timed : List Timed)
    (ticks : List Tick) : List Change :=
  changesFrom conditions delay 0 0 (schedule timed) ticks

def replayChanges (conditions : Conditions) (warmup delay : Duration) (timed : List Timed)
    (ticks : List Tick) : List Change :=
  let start := pauseEnd 0 warmup
  dueBy start (schedule timed) ++
    changesFrom conditions delay 0 start (dueAfter start (schedule timed)) ticks

def Played.shown (played : Played) : Ending × Nat × List Happening :=
  (played.ending, played.scene.now, played.trace)

def steadyFrom (failOn : Option Nat) (delay : Duration) (total sent now : Nat) :
    List Tick → Ending × Nat × List Happening
  | [] => (.completed sent, now, [])
  | tick :: more =>
    if failOn = some (sent + 1) then (.refused sent, now, [.refused now])
    else
      let send : List Happening :=
        [.sent tick.wire now, .logged (tickPublished (sent + 1) total tick.wire)]
      if more.isEmpty then (.completed (sent + 1), now, send)
      else
        let (ending, finish, trace) :=
          steadyFrom failOn delay total (sent + 1) (pauseEnd now delay) more
        (ending, finish, send ++ trace)

theorem sendTick_calm {conditions : Conditions} {index : Nat} (scene : Scene)
    (calm : Calm scene.watch (conditions.changesIn index)) (total : Nat) (tick : Tick) :
    sendTick conditions total index tick scene =
      ({ scene with watch := (conditions.changesIn index).foldl Watch.apply scene.watch },
        [.sent tick.wire scene.now, .logged (tickPublished index total tick.wire)]) := by
  simp only [sendTick, calm_applyAll calm]
  rfl

theorem broadcastFrom_steady {conditions : Conditions} {delay : Duration} {sent : Nat}
    {scene : Scene} {ticks : List Tick} (total : Nat) (ordered : InOrder scene.pending)
    (calm : Calm scene.watch
      (changesFrom conditions delay sent scene.now scene.pending ticks)) :
    (broadcastFrom conditions delay total sent scene ticks).shown =
      steadyFrom conditions.failOn delay total sent scene.now ticks := by
  induction ticks generalizing sent scene with
  | nil => rfl
  | cons tick more ih =>
    have none := calm.request_eq
    have asked : scene.watch.see.request ≠ .interrupt := by
      intro asked
      rw [show scene.watch.see.request = scene.watch.request from rfl, none] at asked
      contradiction
    unfold changesFrom at calm
    unfold broadcastFrom steadyFrom
    simp only [asked, ↓reduceIte]
    by_cases fails : conditions.failOn = some (sent + 1)
    · simp only [fails, ↓reduceIte]
      rfl
    · simp only [fails, ↓reduceIte] at calm ⊢
      obtain ⟨inside, behind⟩ := calm_append.mp calm
      have seen := agrees_looked none
      have send := sendTick_calm { scene with watch := scene.watch.see }
        (inside.agrees seen) total tick
      rw [send]
      by_cases last : more.isEmpty
      · simp only [last, ↓reduceIte]
        rfl
      · simp only [last, Bool.false_eq_true, ↓reduceIte] at behind ⊢
        have agrees := seen.foldl (conditions.changesIn (sent + 1))
        obtain ⟨paused, later⟩ := calm_append.mp (behind.agrees agrees)
        have undisturbed := sleep_undisturbed (conditions.timerFirst (sent + 1))
          (le_pauseEnd scene.now delay) ordered paused
        simp only [pause]
        generalize sleep _ _ _ _ _ = result at undisturbed ⊢
        have left : InOrder result.scene.pending := by
          rw [undisturbed.pending_eq]
          exact ordered.filter _
        have stillCalm : Calm result.scene.watch (changesFrom conditions delay (sent + 1)
            result.scene.now result.scene.pending more) := by
          rw [undisturbed.now_eq, undisturbed.pending_eq]
          exact later.agrees undisturbed.watch_agrees
        have rest := ih left stillCalm
        rw [undisturbed.now_eq] at rest
        simp only [undisturbed.waking_eq, undisturbed.trace_eq, List.append_nil, ← rest]
        rfl

theorem changesFrom_undisturbed (conditions : Conditions) (delay : Duration) (sent now : Nat)
    (ticks : List Tick) :
    changesFrom { conditions with onSend := [] } delay sent now [] ticks = [] := by
  induction ticks generalizing sent now with
  | nil => rfl
  | cons tick more ih =>
    unfold changesFrom
    split
    · rfl
    · split
      · rfl
      · exact ih (sent + 1) (pauseEnd now delay)

theorem warmAndBroadcast_steady {conditions : Conditions} {warmup delay : Duration}
    {request : Request} {before : List Change} {timed : List Timed} {ticks : List Tick}
    (calm : Calm (Scene.opening request before timed).watch
      (replayChanges conditions warmup delay timed ticks)) :
    (warmAndBroadcast conditions warmup delay ticks (.opening request before timed)).shown =
      steadyFrom conditions.failOn delay ticks.length 0 (pauseEnd 0 warmup) ticks := by
  obtain ⟨paused, later⟩ := calm_append.mp calm
  have start : (Scene.opening request before timed).now = 0 := rfl
  have undisturbed := sleep_undisturbed (conditions.timerFirst 0)
    (Nat.zero_le (pauseEnd 0 warmup)) (schedule_inOrder timed) paused
  simp only [warmAndBroadcast, pause, start]
  change Undisturbed _ _ _ (sleep _ _ 0 _ (Scene.opening request before timed).pending)
    at undisturbed
  generalize sleep _ _ _ _ _ = result at undisturbed ⊢
  have left : InOrder result.scene.pending := by
    rw [undisturbed.pending_eq]
    exact (schedule_inOrder timed).filter _
  have stillCalm : Calm result.scene.watch
      (changesFrom conditions delay 0 result.scene.now result.scene.pending ticks) := by
    rw [undisturbed.now_eq, undisturbed.pending_eq]
    exact later.agrees undisturbed.watch_agrees
  have rest := broadcastFrom_steady ticks.length left stillCalm
  rw [undisturbed.now_eq] at rest
  simp only [undisturbed.waking_eq, undisturbed.trace_eq, ← rest]
  rfl

theorem broadcast_steady {conditions : Conditions} {delay : Duration} {request : Request}
    {before : List Change} {timed : List Timed} {ticks : List Tick}
    (calm : Calm (Scene.opening request before timed).watch
      (dispatchChanges conditions delay timed ticks)) :
    (broadcast conditions delay ticks (.opening request before timed)).shown =
      steadyFrom conditions.failOn delay ticks.length 0 0 ticks :=
  broadcastFrom_steady ticks.length (schedule_inOrder timed) calm

theorem replay_shown (conditions : Conditions) (warmup delay : Duration) (ticks : List Tick)
    (scene : Scene) : (replay conditions warmup delay ticks scene).shown =
      let (ending, finish, trace) := (warmAndBroadcast conditions warmup delay ticks scene).shown
      (ending, finish, .logged (warmingUp warmup) ::
        (trace ++ .closed finish :: conditions.closing.map .logged)) := rfl

/-- Attempts come one pause apart, the first of a replay behind its warm-up, and a completed run ends
    with its last send. While the watch holds no interruption, a run shows what it shows under no
    schedule at all. -/
theorem replay_paced (conditions : Conditions) (warmup delay : Duration) (ticks : List Tick)
    (request : Request) (before : List Change) (timed : List Timed) :
    let scene := Scene.opening request before timed
    let alone := { conditions with onSend := [] }
    let dispatched := broadcast conditions delay ticks scene
    let replayed := replay conditions warmup delay ticks scene
    (∃ first step, Due 0 warmup first ∧ Due 0 delay step ∧
      (Paced 0 step (attempts dispatched.trace) ∧
        Paced first step (attempts replayed.trace)) ∧
      (∀ k, dispatched.ending = .completed k →
        dispatched.scene.now = (ticks.length - 1) * step) ∧
      (∀ k, replayed.ending = .completed k →
        replayed.scene.now = first + (ticks.length - 1) * step)) ∧
    (Calm scene.watch (dispatchChanges conditions delay timed ticks) →
      dispatched.shown = (broadcast alone delay ticks (.opening .none [] [])).shown) ∧
    (Calm scene.watch (replayChanges conditions warmup delay timed ticks) →
      replayed.shown = (replay alone warmup delay ticks (.opening .none [] [])).shown) := by
  intro scene alone dispatched replayed
  have warm := pauseEnd_due 0 warmup
  have due := pauseEnd_due 0 delay
  have start : scene.now = 0 := rfl
  have whole : scene.now % 1000000 = 0 := rfl
  obtain ⟨dispatch, dispatchEnd⟩ := broadcastFrom_paced conditions due ticks.length 0 whole ticks
  obtain ⟨paced, pacedEnd⟩ := warmAndBroadcast_paced conditions warm due ticks start
  rw [start] at dispatch dispatchEnd
  refine ⟨⟨_, _, warm, due, ⟨dispatch, ?_⟩, ?_, pacedEnd⟩, ?_, ?_⟩
  · have trace : replayed.trace = [.logged (warmingUp warmup)] ++
        ((warmAndBroadcast conditions warmup delay ticks scene).trace ++
          .closed replayed.scene.now :: conditions.closing.map .logged) := rfl
    rw [trace, attempts_append, attempts_append, closing_attempts, List.append_nil]
    exact paced
  · intro k completed
    exact (dispatchEnd k completed).trans (Nat.zero_add _)
  · intro calm
    have nothing : dispatchChanges alone delay [] ticks = [] :=
      changesFrom_undisturbed conditions delay 0 0 ticks
    have idle : Calm (Scene.opening .none [] []).watch (dispatchChanges alone delay [] ticks) := by
      rw [nothing]
      exact calm_nil.mpr rfl
    exact (broadcast_steady calm).trans (broadcast_steady idle).symm
  · intro calm
    have nothing : replayChanges alone warmup delay [] ticks = [] :=
      changesFrom_undisturbed conditions delay 0 (pauseEnd 0 warmup) ticks
    have idle : Calm (Scene.opening .none [] []).watch
        (replayChanges alone warmup delay [] ticks) := by
      rw [nothing]
      exact calm_nil.mpr rfl
    rw [replay_shown, replay_shown, warmAndBroadcast_steady calm, warmAndBroadcast_steady idle]

theorem replay_paced_idle_changes :
    let tick : Tick := ⟨1, "AAPL", .zero false, .zero false⟩
    let conditions : Conditions := { onSend := [(1, .send .none)] }
    let alone := { conditions with onSend := [] }
    let timed : List Timed :=
      [⟨17000000, .send .interrupt⟩, ⟨16000000, .disconnect⟩, ⟨7000000, .send .none⟩]
    let warmup : Duration := ⟨0, 5000000, by decide⟩
    let delay : Duration := ⟨0, 10000000, by decide⟩
    let scene := Scene.opening .none [.send .none] timed
    let dispatched := broadcast conditions delay [tick, tick, tick] scene
    let replayed := replay conditions warmup delay [tick, tick, tick] scene
    (dispatched.ending = .completed 3 ∧ dispatched.scene.now = 20000000) ∧
    (replayed.ending = .completed 3 ∧ replayed.scene.now = 25000000) ∧
    (Calm scene.watch (dispatchChanges conditions delay timed [tick, tick, tick]) ∧
      dispatched.shown =
        (broadcast alone delay [tick, tick, tick] (.opening .none [] [])).shown) ∧
    Calm scene.watch (replayChanges conditions warmup delay timed [tick, tick, tick]) ∧
      replayed.shown =
        (replay alone warmup delay [tick, tick, tick] (.opening .none [] [])).shown := by
  intro tick conditions alone timed warmup delay scene dispatched replayed
  obtain ⟨⟨first, step, warm, due, _, dispatchEnd, replayEnd⟩, dispatch, replay⟩ :=
    replay_paced conditions warmup delay [tick, tick, tick] .none [.send .none] timed
  have first_eq : first = 5000000 := (warm.exact (by decide) (by decide)).trans (by decide)
  have step_eq : step = 10000000 := (due.exact (by decide) (by decide)).trans (by decide)
  subst first step
  have completed : dispatched.ending = .completed 3 := by decide +kernel
  have completed' : replayed.ending = .completed 3 := by decide +kernel
  have calm : Calm scene.watch (dispatchChanges conditions delay timed [tick, tick, tick]) := by
    decide +kernel
  have calm' : Calm scene.watch (replayChanges conditions warmup delay timed [tick, tick, tick]) := by
    decide +kernel
  have finish := (dispatchEnd 3 completed).trans (by decide : 2 * 10000000 = 20000000)
  have finish' := (replayEnd 3 completed').trans (by decide : 5000000 + 2 * 10000000 = 25000000)
  exact ⟨⟨completed, finish⟩, ⟨completed', finish'⟩, ⟨calm, dispatch calm⟩, calm', replay calm'⟩

/-- No pause takes longer than thirty years, however long a delay it is given. -/
theorem replay_paced_long_delay :
    let tick : Tick := ⟨1, "AAPL", .zero false, .zero false⟩
    let delay : Duration := ⟨946080000, 1000000, by decide⟩
    ¬ Paced 0 delay.total
      (attempts (broadcast {} delay [tick, tick] (.opening .none [] [])).trace) := by
  intro tick delay paced
  have second : (attempts (broadcast {} delay [tick, tick] (.opening .none [] [])).trace)[1]? =
      some longestPause := by decide +kernel
  have short : longestPause < delay.total := by decide +kernel
  have apart := paced 1 longestPause second
  omega

end TickReplay.Feed
