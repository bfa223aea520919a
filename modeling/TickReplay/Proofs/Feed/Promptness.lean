import TickReplay.Proofs.Feed.Interruption

/- Shutdown of whole runs, from the creation of the watch on. Let an instant ask for an interruption if
   something is sent on the watch at it and its last value is an interruption. No run attempts a send
   behind the first such instant, and a run with ticks left then ends there and then. -/
namespace TickReplay.Feed

def Scene.opening (request : Request) (before : List Change) (timed : List Timed) : Scene :=
  ⟨0, ((Watch.initial request).applyAll before).1, schedule timed⟩

def watchAt (conditions : Conditions) (watch : Watch) (timed : List Timed)
    (trace : List Happening) (instant : Nat) : Watch :=
  watch.over (fun time => changesAt timed time ++ changesInside conditions time 0 trace) instant

/-- Some change of the instant sends a value and the last one sent asks for an interruption. -/
def Asks (conditions : Conditions) (watch : Watch) (timed : List Timed) (trace : List Happening)
    (instant : Nat) : Prop :=
  (watchAt conditions watch timed trace instant).interrupted

def FirstAsks (conditions : Conditions) (watch : Watch) (timed : List Timed)
    (trace : List Happening) (instant : Nat) : Prop :=
  Asks conditions watch timed trace instant ∧
    ∀ earlier, earlier < instant → ¬ Asks conditions watch timed trace earlier

/-- No change of the schedule is made at the instant of a send. -/
def Apart (timed : List Timed) (trace : List Happening) : Prop :=
  ∀ time ∈ attempts trace, ∀ change ∈ timed, change.time ≠ time

def Happening.sentTime? : Happening → Option Nat
  | .sent _ time => some time
  | _ => none

def sentBy (instant : Nat) (trace : List Happening) : Nat :=
  (trace.filterMap Happening.sentTime?).countP (· ≤ instant)

/-- How a run answers the first instant that asks for an interruption. An attempt at that instant
    itself comes before the change, or inside its own send. -/
structure Prompt (conditions : Conditions) (watch : Watch) (timed : List Timed) (total : Nat)
    (played : Played) : Prop where
  safe : ∀ instant, FirstAsks conditions watch timed played.trace instant →
    ∀ past attempt later time, played.trace = past ++ attempt :: later →
      attempt.attempt? = some time → time ≤ instant ∧
      (time = instant → (watchAt conditions watch timed past instant).request = .none)
  ends : ∀ instant, FirstAsks conditions watch timed played.trace instant →
    sentBy instant played.trace < total → (∀ k, played.ending ≠ .refused k) →
    instant ≤ played.scene.now →
      played.ending = .interrupted (sentBy instant played.trace) ∧ played.scene.now = instant

instance (conditions : Conditions) (watch : Watch) (timed : List Timed) (trace : List Happening)
    (instant : Nat) : Decidable (Asks conditions watch timed trace instant) :=
  inferInstanceAs (Decidable (_ = true))

instance (conditions : Conditions) (watch : Watch) (timed : List Timed) (trace : List Happening)
    (instant : Nat) : Decidable (FirstAsks conditions watch timed trace instant) :=
  inferInstanceAs (Decidable (_ ∧ _))

instance (timed : List Timed) (trace : List Happening) : Decidable (Apart timed trace) :=
  inferInstanceAs (Decidable (∀ _ ∈ _, _))

theorem live_opening (conditions : Conditions) (request : Request) (before : List Change)
    (timed : List Timed) (trace : List Happening) (k : Nat) :
    live conditions 0 (.opening request before timed) trace k =
      watchAt conditions (Scene.opening request before timed).watch timed trace k := by
  simp only [live, watchAt, Scene.opening, Nat.zero_add, changesAt_schedule]

theorem live_of_asks {conditions : Conditions} {request : Request} {before : List Change}
    {timed : List Timed} {trace : List Happening} {instant : Nat}
    (asks : Asks conditions (Scene.opening request before timed).watch timed trace instant) :
    (live conditions 0 (.opening request before timed) trace instant).interrupted := by
  rw [live_opening]
  exact asks

theorem sentTime_attempt {happening : Happening} {time : Nat}
    (sent : happening.sentTime? = some time) : happening.attempt? = some time := by
  cases happening with
  | sent payload now => exact sent
  | refused now => contradiction
  | closed now => contradiction
  | logged entry => contradiction

theorem sentTimes_eq (trace : List Happening) :
    (trace.filterMap Happening.sentTime?).length = payloads trace := by
  induction trace with
  | nil => rfl
  | cons happening more ih =>
    simp only [payloads, acts] at ih ⊢
    cases happening <;>
      simp only [List.filterMap_cons, Happening.act?, Happening.sentTime?, List.countP_cons,
        List.length_cons, ih] <;> rfl

theorem prompt_of_heeds {conditions : Conditions} {request : Request} {before : List Change}
    {timed : List Timed} {total : Nat} {played : Played}
    (heeds : Heeds conditions 0 (.opening request before timed) played)
    (sent : (played.trace.filterMap Happening.sentTime?).length = played.ending.sent)
    (completed : ∀ k, played.ending = .completed k → k = total) :
    Prompt conditions (Scene.opening request before timed).watch timed total played := by
  have start : (Scene.opening request before timed).now = 0 := rfl
  have safe : ∀ instant, FirstAsks conditions (Scene.opening request before timed).watch timed
      played.trace instant → ∀ past attempt later time, played.trace = past ++ attempt :: later →
      attempt.attempt? = some time → time ≤ instant ∧ (time = instant →
        (watchAt conditions (Scene.opening request before timed).watch timed past instant).request =
          .none) := by
    intro instant first past attempt later time split at_time
    obtain ⟨_, calm, none⟩ := heeds.attempted past attempt later time split at_time
    rw [live_opening, start, Nat.sub_zero] at none
    refine ⟨Nat.le_of_not_lt ?_, fun same => same ▸ none⟩
    intro behind
    have quiet := calm instant (by omega)
    rw [live_of_asks first.1] at quiet
    contradiction
  refine ⟨safe, ?_⟩
  intro instant first unsent accepted reached
  -- No send comes behind the instant, so those up to it are all there are.
  have all : sentBy instant played.trace = played.ending.sent := by
    rw [← sent, sentBy, List.countP_eq_length]
    intro time member
    obtain ⟨happening, inTrace, sent_at⟩ := List.mem_filterMap.mp member
    obtain ⟨past, later, split⟩ := List.append_of_mem inTrace
    have bound := (safe instant first past happening later time split (sentTime_attempt sent_at)).1
    exact decide_eq_true bound
  cases ending : played.ending with
  | refused k => exact absurd ending (accepted k)
  | completed k =>
    have whole := completed k ending
    rw [all, ending] at unsent
    simp only [Ending.sent] at unsent
    omega
  | interrupted k =>
    rw [all, ending]
    refine ⟨rfl, Nat.le_antisymm (Nat.le_of_not_lt ?_) reached⟩
    intro early
    have quiet := heeds.ended k ending instant (by omega)
    rw [live_of_asks first.1] at quiet
    contradiction

theorem inside_append {back : List Happening} (none : attempts back = []) (conditions : Conditions)
    (time sent : Nat) (front : List Happening) :
    changesInside conditions time sent (front ++ back) =
      changesInside conditions time sent front := by
  induction front generalizing sent with
  | nil =>
    rw [List.nil_append]
    exact early_inside (by rw [none]; simp)
  | cons happening front ih =>
    cases happening with
    | sent payload now => simp only [List.cons_append, changesInside, ih]
    | refused now => exact ih sent
    | closed now => exact ih sent
    | logged entry => exact ih sent

theorem heeds_framed {conditions : Conditions} {sent : Nat} {scene : Scene} {played framed : Played}
    {line : Log.Entry} {back : List Happening} (none : attempts back = [])
    (trace : framed.trace = .logged line :: played.trace ++ back)
    (ending : framed.ending = played.ending) (time : framed.scene.now = played.scene.now)
    (heeds : Heeds conditions sent scene played) : Heeds conditions sent scene framed := by
  have same : ∀ past k, live conditions sent scene (.logged line :: past) k =
      live conditions sent scene past k := fun _ _ => rfl
  have whole : ∀ k, live conditions sent scene framed.trace k =
      live conditions sent scene played.trace k := by
    intro k
    simp only [trace, List.cons_append, same]
    simp only [live, inside_append none]
  constructor
  · intro past attempt later at_ split at_time
    rw [trace] at split
    obtain ⟨past', rfl, rest⟩ := attempt_behind [.logged line] rfl split at_time
    rcases List.append_eq_append_iff.mp rest with ⟨tail, _, tail_eq⟩ | ⟨tail, front_eq, tail_eq⟩
    · exact absurd at_time (no_attempt none tail_eq)
    · cases tail with
      | nil =>
        have alone : back = [] ++ attempt :: later := tail_eq.symm
        exact absurd at_time (no_attempt none alone)
      | cons first tail =>
        obtain ⟨rfl, _⟩ := List.cons.inj tail_eq
        obtain ⟨bound, calm, request⟩ := heeds.attempted past' attempt tail at_ front_eq at_time
        exact ⟨bound, fun k early => by rw [whole]; exact calm k early, request⟩
  · intro n ends k early
    rw [ending] at ends
    rw [time] at early
    rw [whole]
    exact heeds.ended n ends k early

theorem broadcastFrom_first (conditions : Conditions) (delay : Duration) (total sent : Nat)
    (scene : Scene) (ticks : List Tick) :
    let played := broadcastFrom conditions delay total sent scene ticks
    (played.trace = [] ∧ played.scene.now = scene.now) ∨ scene.now ∈ attempts played.trace := by
  cases ticks with
  | nil => exact .inl ⟨rfl, rfl⟩
  | cons tick more =>
    obtain ⟨lines, trace⟩ := sendTick_trace conditions total (sent + 1) tick
      { scene with watch := scene.watch.see }
    have first : ∀ tail, scene.now ∈ attempts ((sendTick conditions total (sent + 1) tick
        { scene with watch := scene.watch.see }).2 ++ tail) := by
      intro tail
      rw [trace]
      exact List.mem_cons_self
    simp only [broadcastFrom]
    split
    · exact .inl ⟨rfl, rfl⟩
    split
    · exact .inr List.mem_cons_self
    split
    · have only := first []
      rw [List.append_nil] at only
      exact .inr only
    · split
      · exact .inr (first _)
      · refine .inr ?_
        simp only [Played.after, List.append_assoc]
        exact first _

variable {request : Request} {before : List Change} {timed : List Timed}

theorem opening_ordered : InOrder (Scene.opening request before timed).pending :=
  schedule_inOrder timed

theorem broadcast_heeds (conditions : Conditions) (delay : Duration) (ticks : List Tick)
    (apart : Apart timed (broadcast conditions delay ticks (.opening request before timed)).trace) :
    Heeds conditions 0 (.opening request before timed)
      (broadcast conditions delay ticks (.opening request before timed)) := by
  rcases broadcastFrom_first conditions delay ticks.length 0 (.opening request before timed) ticks
    with ⟨none, here⟩ | first
  · exact heeds_at_once _ _ _ none here
  · refine broadcastFrom_heeds conditions delay ticks.length ticks .rfl opening_ordered ?_
    intro change member
    have other := apart _ first change ((mem_schedule timed change).mp member)
    exact Nat.pos_of_ne_zero other

theorem warmAndBroadcast_heeds (conditions : Conditions) (warmup delay : Duration)
    (ticks : List Tick) :
    Heeds conditions 0 (.opening request before timed)
      (warmAndBroadcast conditions warmup delay ticks (.opening request before timed)) := by
  have quiet := quiet_pause warmup (conditions.timerFirst 0) (.opening request before timed)
  have slept := pause_slept warmup (conditions.timerFirst 0) (.opening request before timed)
    opening_ordered (fun _ _ => Nat.zero_le _)
  simp only [warmAndBroadcast]
  split
  · exact heeds_cut _ _ quiet slept.calm
  · rename_i elapsed
    obtain ⟨ordered, later⟩ := elapsed_pending slept elapsed opening_ordered
    exact heeds_elapsed quiet slept elapsed fun truth agrees =>
      broadcastFrom_heeds conditions delay ticks.length ticks agrees ordered later

theorem closing_attempts (time : Nat) (closing : List Log.Entry) :
    attempts (.closed time :: closing.map .logged) = [] := by
  rw [← List.singleton_append, attempts_append, logged_attempts]
  rfl

theorem replay_heeds (conditions : Conditions) (warmup delay : Duration) (ticks : List Tick) :
    Heeds conditions 0 (.opening request before timed)
      (replay conditions warmup delay ticks (.opening request before timed)) :=
  heeds_framed (closing_attempts _ _) rfl rfl rfl
    (warmAndBroadcast_heeds conditions warmup delay ticks)

theorem sentTimes_published {conditions : Conditions} {ticks : List Tick} {ending : Ending}
    {front : List Happening} (back : List Happening)
    (run : Published conditions ticks ending front) (none : attempts back = []) :
    ((front ++ back).filterMap Happening.sentTime?).length = ending.sent := by
  have nothing : back.filterMap Happening.sentTime? = [] := by
    apply List.filterMap_eq_nil_iff.mpr
    intro happening member
    have gone := List.filterMap_eq_nil_iff.mp none happening member
    cases happening with
    | sent payload time => contradiction
    | refused time => rfl
    | closed time => rfl
    | logged entry => rfl
  rw [List.filterMap_append, nothing, List.append_nil, sentTimes_eq, payloads, run.acts_eq,
    countP_calls ticks run.sent_le]

def Untouched (changes : List Change) : Prop := ∀ change ∈ changes, change = .disconnect

/-- An interruption that was seen from the beginning and is still in the watch. -/
structure Old (watch : Watch) : Prop where
  request_eq : watch.request = .interrupt
  unseen_eq : watch.unseen = false

theorem Old.interrupted_eq {watch : Watch} (old : Old watch) : watch.interrupted = false := by
  rw [Watch.interrupted, old.unseen_eq, Bool.false_and]

theorem Old.foldl {watch : Watch} {changes : List Change} (old : Old watch)
    (untouched : Untouched changes) : Old (changes.foldl Watch.apply watch) := by
  induction changes generalizing watch with
  | nil => exact old
  | cons change more ih =>
    have first := untouched change (by simp)
    refine ih ?_ fun other member => untouched other (List.mem_cons_of_mem change member)
    subst change
    unfold Watch.apply
    split
    · exact old
    · exact ⟨old.request_eq, old.unseen_eq⟩

theorem Old.over {watch : Watch} {changes : Nat → List Change} (old : Old watch)
    (untouched : ∀ i, Untouched (changes i)) (k : Nat) : Old (watch.over changes k) := by
  induction k with
  | zero => exact old.foldl (untouched 0)
  | succ k ih => exact Old.foldl ⟨ih.request_eq, rfl⟩ (untouched (k + 1))

theorem untouched_changesAt (untouched : Untouched (timed.map Timed.change)) (time : Nat) :
    Untouched (changesAt (schedule timed) time) := by
  rw [changesAt_schedule]
  intro change member
  obtain ⟨entry, inTimed, rfl⟩ := List.mem_map.mp member
  exact untouched entry.change (List.mem_map_of_mem (List.mem_filter.mp inTimed).1)

theorem opening_old (untouched : Untouched before) :
    Old (Scene.opening .interrupt before timed).watch := by
  simp only [Scene.opening, applyAll_fst]
  exact Old.foldl ⟨rfl, rfl⟩ untouched

theorem broadcast_held (conditions : Conditions) (delay : Duration) (ticks : List Tick)
    {scene : Scene} (asked : scene.watch.request = .interrupt) :
    (broadcast conditions delay ticks scene).trace = [] ∧
      (broadcast conditions delay ticks scene).scene.now = scene.now := by
  cases ticks with
  | nil => exact ⟨rfl, rfl⟩
  | cons tick more => simp [broadcast, broadcastFrom, Watch.see, asked]

theorem warmAndBroadcast_held (conditions : Conditions) (warmup delay : Duration)
    (ticks : List Tick) (earlier : Untouched before)
    (untouched : Untouched (timed.map Timed.change)) :
    let played := warmAndBroadcast conditions warmup delay ticks (.opening .interrupt before timed)
    Quiet played.trace ∧ played.scene.now = pauseEnd 0 warmup := by
  have quiet := quiet_pause warmup (conditions.timerFirst 0) (.opening .interrupt before timed)
  have slept := pause_slept warmup (conditions.timerFirst 0) (.opening .interrupt before timed)
    opening_ordered (fun _ _ => Nat.zero_le _)
  have old : ∀ k, Old (scheduled (Scene.opening .interrupt before timed).now
      (Scene.opening .interrupt before timed).watch
      (Scene.opening .interrupt before timed).pending k) := by
    intro k
    exact (opening_old earlier).over (fun i => untouched_changesAt untouched _) k
  simp only [warmAndBroadcast]
  split
  · rename_i cut
    obtain ⟨j, _, _, asked⟩ := slept.interrupted cut
    rw [(old j).interrupted_eq] at asked
    contradiction
  · rename_i elapsed
    obtain ⟨time, _, agrees⟩ := slept.elapsed elapsed
    obtain ⟨none, here⟩ := broadcast_held conditions delay ticks
      (agrees.request_eq.trans (old _).request_eq)
    simp only [Played.after, none, List.append_nil]
    refine ⟨quiet, here.trans (time.trans ?_)⟩
    exact Nat.zero_add (pauseEnd 0 warmup)

/-- No tick is sent behind the first instant that asks for an interruption, and a run with ticks left
    ends at that instant. An interruption that the watch was created with lets no tick out either,
    but the warm-up takes its time. -/
theorem shutdown_prompt (conditions : Conditions) (warmup delay : Duration) (ticks : List Tick)
    (request : Request) (before : List Change) (timed : List Timed) :
    let scene := Scene.opening request before timed
    let dispatched := broadcast conditions delay ticks scene
    let replayed := replay conditions warmup delay ticks scene
    (Apart timed dispatched.trace →
      Prompt conditions scene.watch timed ticks.length dispatched) ∧
    (Apart timed replayed.trace →
      Prompt conditions scene.watch timed ticks.length replayed) ∧
    (request = .interrupt → Untouched before → Untouched (timed.map Timed.change) →
      attempts dispatched.trace = [] ∧ attempts replayed.trace = [] ∧
      Due 0 warmup replayed.scene.now) := by
  intro scene dispatched replayed
  have dispatch := published_of_publication
    (broadcast_publication conditions delay ticks scene).1
  have warm := published_of_publication
    (warmAndBroadcast_publication conditions warmup delay ticks scene).1
  refine ⟨?_, ?_, ?_⟩
  · intro apart
    have sent := sentTimes_published [] dispatch rfl
    rw [List.append_nil] at sent
    exact prompt_of_heeds (broadcast_heeds conditions delay ticks apart) sent dispatch.completed
  · intro _
    have sent := sentTimes_published _ (published_warmingUp warmup warm)
      (closing_attempts replayed.scene.now conditions.closing)
    exact prompt_of_heeds (replay_heeds conditions warmup delay ticks) sent warm.completed
  · intro asked earlier untouched
    subst asked
    have old : Old (Scene.opening .interrupt before timed).watch := opening_old earlier
    have held := broadcast_held conditions delay ticks old.request_eq
    obtain ⟨quiet, time⟩ := warmAndBroadcast_held conditions warmup delay ticks earlier untouched
    have slept : Due 0 warmup replayed.scene.now := by
      rw [show replayed.scene.now = pauseEnd 0 warmup from time]
      exact pauseEnd_due 0 warmup
    refine ⟨by rw [held.1]; rfl, ?_, slept⟩
    have trace : replayed.trace = .logged (warmingUp warmup) ::
        ((warmAndBroadcast conditions warmup delay ticks scene).trace ++
          .closed replayed.scene.now :: conditions.closing.map .logged) := rfl
    rw [trace, ← List.singleton_append, attempts_append, attempts_append, closing_attempts,
      quiet_attempts quiet]
    rfl

/-- A termination signal in the pause between two sends ends both runs at its instant. -/
theorem shutdown_prompt_between_sends :
    let tick : Tick := ⟨1, "AAPL", .zero false, .zero false⟩
    let timed : List Timed := [⟨17, .signal .terminate⟩, ⟨2, .send .none⟩]
    let scene := Scene.opening .none [.send .none] timed
    let none : Duration := ⟨0, 0, by decide⟩
    let delay : Duration := ⟨0, 10, by decide⟩
    let dispatched := broadcast {} delay [tick, tick, tick] scene
    let replayed := replay {} none delay [tick, tick, tick] scene
    let held := Scene.opening .interrupt [.disconnect] []
    (Apart timed dispatched.trace ∧ dispatched.ending = .interrupted 1 ∧ dispatched.scene.now = 17) ∧
    (Apart timed replayed.trace ∧ replayed.ending = .interrupted 1 ∧ replayed.scene.now = 17) ∧
    Untouched [.disconnect] ∧ Due 0 delay (replay {} delay delay [tick] held).scene.now := by
  intro tick timed scene none delay dispatched replayed held
  have prompt : (Apart timed dispatched.trace → Prompt {} scene.watch timed 3 dispatched) ∧
      (Apart timed replayed.trace → Prompt {} scene.watch timed 3 replayed) ∧ _ :=
    shutdown_prompt {} none delay [tick, tick, tick] .none [.send .none] timed
  obtain ⟨_, _, hold⟩ := shutdown_prompt {} delay delay [tick] .interrupt [.disconnect] []
  have apart : Apart timed dispatched.trace ∧ Apart timed replayed.trace := by decide +kernel
  have first : FirstAsks {} scene.watch timed dispatched.trace 17 ∧
      FirstAsks {} scene.watch timed replayed.trace 17 := by decide +kernel
  have sends : sentBy 17 dispatched.trace = 1 ∧ sentBy 17 replayed.trace = 1 := by decide +kernel
  have accepted : dispatched.ending.refusal = [] ∧ replayed.ending.refusal = [] := by
    decide +kernel
  have reached : 17 ≤ dispatched.scene.now ∧ 17 ≤ replayed.scene.now := by decide +kernel
  have gone : Untouched [.disconnect] := by simp [Untouched]
  have ended := (prompt.1 apart.1).ends 17 first.1 (by rw [sends.1]; decide)
    (fun k ends => by rw [ends] at accepted; cases accepted.1) reached.1
  have ended' := (prompt.2.1 apart.2).ends 17 first.2 (by rw [sends.2]; decide)
    (fun k ends => by rw [ends] at accepted; cases accepted.2) reached.2
  rw [sends.1] at ended
  rw [sends.2] at ended'
  have never : Untouched (([] : List Timed).map Timed.change) := by simp [Untouched]
  obtain ⟨_, _, slept⟩ := hold rfl gone never
  exact ⟨⟨apart.1, ended⟩, ⟨apart.2, ended'⟩, gone, slept⟩

/-- A pause never takes longer than thirty years, and neither does a warm-up that is slept out. -/
theorem shutdown_prompt_long_warmup :
    let tick : Tick := ⟨1, "AAPL", .zero false, .zero false⟩
    let warmup : Duration := ⟨946080000, 1000000, by decide⟩
    (replay {} warmup ⟨0, 0, by decide⟩ [tick] (.opening .interrupt [] [])).scene.now <
      warmup.total := by
  decide +kernel

end TickReplay.Feed
