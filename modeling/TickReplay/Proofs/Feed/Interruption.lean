import TickReplay.Proofs.Feed.Pause
import TickReplay.Proofs.Feed.Publication

/- How soon an interruption is honoured. The changes of a run are those of the schedule and those made
   inside its sends; no send is attempted behind the first instant whose changes ask for an
   interruption, and a run with ticks left ends at that instant. -/
namespace TickReplay.Feed

def Happening.attempt? : Happening → Option Nat
  | .sent _ time => some time
  | .refused time => some time
  | _ => none

def attempts (trace : List Happening) : List Nat := trace.filterMap Happening.attempt?

def changesInside (conditions : Conditions) (time : Nat) : Nat → List Happening → List Change
  | _, [] => []
  | sent, .sent _ now :: more =>
    (if now = time then (conditions.onSend.filter fun made => made.1 == sent + 1).map Prod.snd
      else []) ++
      changesInside conditions time (sent + 1) more
  | sent, _ :: more => changesInside conditions time sent more

/-- The watch k instants behind a scene, from what the schedule and the sends of a trace do to it. -/
def live (conditions : Conditions) (sent : Nat) (scene : Scene) (trace : List Happening) (k : Nat) :
    Watch :=
  scene.watch.over (fun i => changesAt scene.pending (scene.now + i) ++
    changesInside conditions (scene.now + i) sent trace) k

theorem quiet_inside {front : List Happening} (quiet : Quiet front) (conditions : Conditions)
    (time sent : Nat) (tail : List Happening) :
    changesInside conditions time sent (front ++ tail) =
      changesInside conditions time sent tail := by
  induction front with
  | nil => rfl
  | cons happening front ih =>
    obtain ⟨signal, rfl⟩ := quiet happening (by simp)
    exact ih fun other member => quiet other (List.mem_cons_of_mem _ member)

theorem logged_inside (conditions : Conditions) (time sent : Nat) (lines : List Log.Entry)
    (tail : List Happening) : changesInside conditions time sent (lines.map .logged ++ tail) =
      changesInside conditions time sent tail := by
  induction lines with
  | nil => rfl
  | cons line lines ih => exact ih

theorem early_inside {conditions : Conditions} {time sent : Nat} {trace : List Happening}
    (later : ∀ t ∈ attempts trace, time < t) : changesInside conditions time sent trace = [] := by
  induction trace generalizing sent with
  | nil => rfl
  | cons happening more ih =>
    cases happening with
    | sent payload now =>
      have ahead := later now (by simp [attempts, Happening.attempt?])
      have rest : changesInside conditions time (sent + 1) more = [] := by
        refine ih fun t member => later t ?_
        simp only [attempts, List.filterMap_cons, Happening.attempt?]
        exact List.mem_cons_of_mem _ member
      rw [changesInside, if_neg (by omega), rest]
      rfl
    | refused now =>
      exact ih fun t member => later t (by
        simp only [attempts, List.filterMap_cons, Happening.attempt?]
        exact List.mem_cons_of_mem _ member)
    | closed now => exact ih later
    | logged entry => exact ih later

theorem sendTick_trace (conditions : Conditions) (total index : Nat) (tick : Tick) (scene : Scene) :
    ∃ lines : List Log.Entry, (sendTick conditions total index tick scene).2 =
      .sent tick.wire scene.now :: lines.map .logged := by
  refine ⟨(scene.watch.applyAll (conditions.changesIn index)).2 ++
    [tickPublished index total tick.wire], ?_⟩
  simp [sendTick]

theorem live_send (conditions : Conditions) (sent : Nat) {scene : Scene}
    (later : ∀ timed ∈ scene.pending, scene.now < timed.time) (payload : String)
    (lines : List Log.Entry) (tail : List Happening) (k : Nat) :
    live conditions sent scene (.sent payload scene.now :: lines.map .logged ++ tail) k =
      live conditions (sent + 1)
        { scene with watch := (conditions.changesIn (sent + 1)).foldl Watch.apply scene.watch }
        tail k := by
  refine over_first scene.watch (conditions.changesIn (sent + 1)) ?_ (fun i => ?_) k
  · simp only [List.cons_append, changesInside, logged_inside, Nat.add_zero, ↓reduceIte,
      changesAt_before later, List.nil_append, Conditions.changesIn]
  · have past : scene.now ≠ scene.now + (i + 1) := by omega
    simp only [List.cons_append, changesInside, logged_inside, past, ↓reduceIte, List.nil_append]

theorem live_pause (conditions : Conditions) (sent : Nat) (scene : Scene) {steps : Nat}
    {tail : List Happening} (later : ∀ t ∈ attempts tail, scene.now + steps ≤ t) :
    (∀ k, k < steps → live conditions sent scene tail k =
      scheduled scene.now scene.watch scene.pending k) ∧
    ∀ j, live conditions sent scene tail (steps + j) =
      live conditions sent ⟨scene.now + steps, scheduled scene.now scene.watch scene.pending steps,
        scene.pending.filter (fun timed => scene.now + steps < timed.time)⟩ tail j := by
  have none : ∀ i, i < steps → changesInside conditions (scene.now + i) sent tail = [] := by
    intro i before
    apply early_inside
    intro t member
    have bound := later t member
    omega
  constructor
  · intro k before
    refine over_congr scene.watch ?_
    intro i bound
    rw [none i (by omega), List.append_nil]
  · intro j
    refine over_split scene.watch (fun i before => ?_) ?_ (fun i => ?_) j
    · rw [none i before, List.append_nil]
    · have gone : changesAt (scene.pending.filter fun timed => scene.now + steps < timed.time)
          (scene.now + steps) = [] := by
        apply changesAt_before
        intro timed member
        simpa using (List.mem_filter.mp member).2
      simp only [Nat.add_zero, gone, List.nil_append]
    · have kept := changesAt_filter scene.pending
        (show scene.now + steps < scene.now + steps + (i + 1) by omega)
      have sum : scene.now + (steps + (i + 1)) = scene.now + steps + (i + 1) := by omega
      simp only [sum, kept]

theorem logged_attempts (lines : List Log.Entry) : attempts (lines.map .logged) = [] := by
  simp [attempts, Happening.attempt?]

theorem quiet_attempts {trace : List Happening} (quiet : Quiet trace) : attempts trace = [] := by
  apply List.filterMap_eq_nil_iff.mpr
  intro happening member
  obtain ⟨signal, rfl⟩ := quiet happening member
  rfl

theorem attempts_append (front back : List Happening) :
    attempts (front ++ back) = attempts front ++ attempts back :=
  List.filterMap_append

theorem attempt_behind (front : List Happening) {tail past later : List Happening}
    {attempt : Happening} {time : Nat} (none : attempts front = [])
    (split : front ++ tail = past ++ attempt :: later) (at_time : attempt.attempt? = some time) :
    ∃ past', past = front ++ past' ∧ tail = past' ++ attempt :: later := by
  rcases List.append_eq_append_iff.mp split with ⟨past', front_eq, tail_eq⟩ | ⟨rest, front_eq, rest_eq⟩
  · exact ⟨past', front_eq, tail_eq⟩
  · cases rest with
    | nil => exact ⟨[], by simpa using front_eq.symm, by simpa using rest_eq.symm⟩
    | cons first rest =>
      have same := (List.cons.inj rest_eq).1
      have gone := List.filterMap_eq_nil_iff.mp none attempt (by rw [front_eq, same]; simp)
      rw [at_time] at gone
      contradiction

/-- How a run from a scene heeds its watch: before every attempt no instant has asked for an
    interruption and none is asked for right then; nor has an earlier instant where it ends
    interrupted. -/
structure Heeds (conditions : Conditions) (sent : Nat) (scene : Scene) (played : Played) : Prop where
  attempted : ∀ past attempt later time, played.trace = past ++ attempt :: later →
    attempt.attempt? = some time → scene.now ≤ time ∧
    (∀ k, scene.now + k < time → (live conditions sent scene played.trace k).interrupted = false) ∧
    (live conditions sent scene past (time - scene.now)).request = .none
  ended : ∀ n, played.ending = .interrupted n → ∀ k, scene.now + k < played.scene.now →
    (live conditions sent scene played.trace k).interrupted = false

theorem Heeds.attempts_from {conditions : Conditions} {sent : Nat} {scene : Scene} {played : Played}
    (heeds : Heeds conditions sent scene played) : ∀ t ∈ attempts played.trace, scene.now ≤ t := by
  intro t member
  obtain ⟨attempt, inTrace, at_time⟩ := List.mem_filterMap.mp member
  obtain ⟨past, later, split⟩ := List.append_of_mem inTrace
  exact (heeds.attempted past attempt later t split at_time).1

theorem heeds_pause {conditions : Conditions} {sent steps : Nat} {scene other : Scene}
    {front : List Happening} {played : Played} (quiet : Quiet front)
    (calm : ∀ k, k < steps →
      (scheduled scene.now scene.watch scene.pending k).interrupted = false)
    (from_there : other = ⟨scene.now + steps, scheduled scene.now scene.watch scene.pending steps,
      scene.pending.filter (fun timed => scene.now + steps < timed.time)⟩)
    (heeds : Heeds conditions sent other played) :
    Heeds conditions sent scene (played.after front) := by
  have start : other.now = scene.now + steps := by rw [from_there]
  have times := heeds.attempts_from
  rw [start] at times
  have skip : ∀ tail k, live conditions sent scene (front ++ tail) k =
      live conditions sent scene tail k := by
    intro tail k
    simp only [live, quiet_inside quiet]
  obtain ⟨before, behind⟩ := live_pause conditions sent scene times
  -- Up to `steps` the pause answers for the watch, and from there on the run behind it.
  have quietly : ∀ time, (∀ k, other.now + k < time →
      (live conditions sent other played.trace k).interrupted = false) → ∀ k, scene.now + k < time →
      (live conditions sent scene (front ++ played.trace) k).interrupted = false := by
    intro time there k early
    rw [skip]
    by_cases paused : k < steps
    · rw [before k paused]
      exact calm k paused
    · obtain ⟨j, rfl⟩ : ∃ j, k = steps + j := ⟨k - steps, by omega⟩
      rw [behind, ← from_there]
      exact there j (by omega)
  constructor
  · intro past attempt later time split at_time
    obtain ⟨past', rfl, tail⟩ := attempt_behind front (quiet_attempts quiet) split at_time
    obtain ⟨bound, there, request⟩ := heeds.attempted past' attempt later time tail at_time
    refine ⟨by omega, quietly time there, ?_⟩
    have reached : ∀ t ∈ attempts past', scene.now + steps ≤ t := by
      intro t member
      refine times t ?_
      rw [tail, attempts_append]
      exact List.mem_append_left _ member
    have sum : time - scene.now = steps + (time - other.now) := by omega
    rw [skip, sum, (live_pause conditions sent scene reached).2, ← from_there]
    exact request
  · intro n ends
    exact quietly played.scene.now (heeds.ended n ends)

theorem no_attempt {trace past later : List Happening} {attempt : Happening} {time : Nat}
    (none : attempts trace = []) (split : trace = past ++ attempt :: later) :
    attempt.attempt? ≠ some time := by
  have gone := List.filterMap_eq_nil_iff.mp none attempt (by rw [split]; simp)
  rw [gone]
  exact nofun

theorem heeds_at_once (conditions : Conditions) (sent : Nat) (scene : Scene) {played : Played}
    (none : played.trace = []) (here : played.scene.now = scene.now) :
    Heeds conditions sent scene played := by
  refine ⟨?_, fun n _ k early => by omega⟩
  intro past attempt later time split at_time
  have without : attempts played.trace = [] := by rw [none]; rfl
  exact absurd at_time (no_attempt without split)

theorem heeds_cut (conditions : Conditions) (sent : Nat) {scene : Scene} {played : Played}
    (quiet : Quiet played.trace)
    (calm : ∀ k, scene.now + k < played.scene.now →
      (scheduled scene.now scene.watch scene.pending k).interrupted = false) :
    Heeds conditions sent scene played := by
  have without := quiet_attempts quiet
  constructor
  · intro past attempt later time split at_time
    exact absurd at_time (no_attempt without split)
  · intro n _ k early
    have same : live conditions sent scene played.trace k =
        scheduled scene.now scene.watch scene.pending k := by
      have inside : ∀ time, changesInside conditions time sent played.trace = [] :=
        fun time => early_inside (by rw [without]; simp)
      simp only [live, scheduled, inside, List.append_nil]
    rw [same]
    exact calm k early

theorem live_nil (conditions : Conditions) (sent : Nat) {scene : Scene}
    (later : ∀ timed ∈ scene.pending, scene.now < timed.time) :
    live conditions sent scene [] 0 = scene.watch := by
  simp [live, Watch.over, changesAt_before later, changesInside]

theorem heeds_refused (conditions : Conditions) (sent : Nat) (scene : Scene) {played : Played}
    (later : ∀ timed ∈ scene.pending, scene.now < timed.time) (calm : scene.watch.request = .none)
    (only : played.trace = [.refused scene.now]) (ends : ∀ n, played.ending ≠ .interrupted n) :
    Heeds conditions sent scene played := by
  refine ⟨?_, fun n cut => absurd cut (ends n)⟩
  intro past attempt later' time split at_time
  rw [only] at split
  cases past with
  | nil =>
    obtain ⟨rfl, _⟩ := List.cons.inj split
    cases at_time
    refine ⟨Nat.le_refl _, fun k early => by omega, ?_⟩
    rw [Nat.sub_self, live_nil conditions sent later]
    exact calm
  | cons first past => simp at split

theorem heeds_send {conditions : Conditions} {sent : Nat} (scene : Scene) {payload : String}
    {lines : List Log.Entry} {played : Played}
    (later : ∀ timed ∈ scene.pending, scene.now < timed.time) (calm : scene.watch.request = .none)
    (heeds : Heeds conditions (sent + 1)
      { scene with watch := (conditions.changesIn (sent + 1)).foldl Watch.apply scene.watch }
      played) :
    Heeds conditions sent scene (played.after (.sent payload scene.now :: lines.map .logged)) := by
  have pass := live_send conditions sent later payload lines
  constructor
  · intro past attempt later' time split at_time
    cases past with
    | nil =>
      obtain ⟨rfl, _⟩ := List.cons.inj split
      cases at_time
      refine ⟨Nat.le_refl _, fun k early => by omega, ?_⟩
      rw [Nat.sub_self, live_nil conditions sent later]
      exact calm
    | cons first past =>
      obtain ⟨rfl, rest⟩ := List.cons.inj split
      obtain ⟨past', rfl, tail⟩ := attempt_behind _ (logged_attempts lines) rest at_time
      obtain ⟨bound, before, request⟩ := heeds.attempted past' attempt later' time tail at_time
      refine ⟨bound, ?_, ?_⟩
      · intro k early
        exact (congrArg Watch.interrupted (pass played.trace k)).trans (before k early)
      · exact (congrArg Watch.request (pass past' (time - scene.now))).trans request
  · intro n ends k early
    exact (congrArg Watch.interrupted (pass played.trace k)).trans (heeds.ended n ends k early)

theorem calm_of_see {watch truth : Watch} (agrees : Agrees watch truth)
    (none : watch.see.request ≠ .interrupt) : Agrees watch.see truth ∧ truth.request = .none := by
  have request : watch.request = .none := by
    cases asked : watch.request with
    | none => rfl
    | interrupt => exact absurd asked none
  have seen := agrees_see (interrupted_of_none request)
  exact ⟨seen.trans agrees, agrees.request_eq.symm.trans request⟩

theorem heeds_elapsed {conditions : Conditions} {sent steps : Nat} {scene : Scene} {paused : Paused}
    {played : Played} (quiet : Quiet paused.trace)
    (slept : Slept scene.now steps scene.watch scene.pending paused)
    (elapsed : paused.waking = .elapsed)
    (heeds : ∀ truth, Agrees paused.scene.watch truth →
      Heeds conditions sent { paused.scene with watch := truth } played) :
    Heeds conditions sent scene (played.after paused.trace) := by
  obtain ⟨time, left, agrees⟩ := slept.elapsed elapsed
  have calm : ∀ k, k < steps →
      (scheduled scene.now scene.watch scene.pending k).interrupted = false := by
    intro k before
    exact slept.calm k (by omega)
  refine heeds_pause quiet calm ?_ (heeds _ agrees)
  rw [← time] at left ⊢
  rw [← left]

theorem elapsed_pending {now steps : Nat} {watch : Watch} {pending : List Timed} {paused : Paused}
    (slept : Slept now steps watch pending paused) (elapsed : paused.waking = .elapsed)
    (ordered : InOrder pending) :
    InOrder paused.scene.pending ∧ ∀ timed ∈ paused.scene.pending, paused.scene.now < timed.time := by
  obtain ⟨time, left, _⟩ := slept.elapsed elapsed
  rw [time, left]
  exact ⟨ordered.filter _, fun timed member => by simpa using (List.mem_filter.mp member).2⟩

theorem heeds_sendTick (conditions : Conditions) (total sent : Nat) (tick : Tick) (scene : Scene)
    {truth : Watch} (agrees : Agrees scene.watch truth) (calm : truth.request = .none)
    (later : ∀ timed ∈ scene.pending, scene.now < timed.time) :
    let next := sendTick conditions total (sent + 1) tick scene
    next.1.now = scene.now ∧ next.1.pending = scene.pending ∧
    ∃ truth', Agrees next.1.watch truth' ∧
      ∀ played, Heeds conditions (sent + 1) { next.1 with watch := truth' } played →
        Heeds conditions sent { scene with watch := truth } (played.after next.2) := by
  obtain ⟨lines, trace⟩ := sendTick_trace conditions total (sent + 1) tick scene
  refine ⟨rfl, rfl, (conditions.changesIn (sent + 1)).foldl Watch.apply truth, ?_,
    fun played heeds => ?_⟩
  · simp only [sendTick, applyAll_fst]
    exact agrees.foldl (conditions.changesIn (sent + 1))
  · rw [trace]
    exact heeds_send { scene with watch := truth } later calm heeds

/-- A broadcast heeds the true watch, of which it may see less marks. -/
theorem broadcastFrom_heeds (conditions : Conditions) (delay : Duration) (total : Nat)
    {sent : Nat} {scene : Scene} {truth : Watch} (ticks : List Tick)
    (agrees : Agrees scene.watch truth) (ordered : InOrder scene.pending)
    (later : ∀ timed ∈ scene.pending, scene.now < timed.time) :
    Heeds conditions sent { scene with watch := truth }
      (broadcastFrom conditions delay total sent scene ticks) := by
  -- A look at the watch drops the mark of its last change, so the induction runs over a `truth` that
  -- keeps every mark and only has to agree with the watch of the loop.
  induction ticks generalizing sent scene truth with
  | nil => exact heeds_at_once _ _ _ rfl rfl
  | cons tick more ih =>
    simp only [broadcastFrom]
    split
    · exact heeds_at_once _ _ _ rfl rfl
    rename_i calm
    obtain ⟨seen, request⟩ := calm_of_see agrees calm
    split
    · refine heeds_refused _ _ { scene with watch := truth } later request rfl ?_
      intro n ends
      cases ends
    obtain ⟨now, pending, truth', agrees', send⟩ := heeds_sendTick conditions total sent tick
      { scene with watch := scene.watch.see } seen request later
    generalize sendTick conditions total (sent + 1) tick _ = next at now pending agrees' send
    obtain ⟨behind, front⟩ := next
    dsimp only at now pending agrees' send ⊢
    split
    · have last := send ⟨.completed (sent + 1), behind, []⟩ (heeds_at_once _ _ _ rfl rfl)
      simp only [Played.after, List.append_nil] at last
      exact last
    · rw [← now, ← pending] at later
      rw [← pending] at ordered
      have quiet := quiet_pause delay (conditions.timerFirst (sent + 1)) behind
      have slept := (pause_slept delay (conditions.timerFirst (sent + 1)) behind ordered
        (fun timed member => Nat.le_of_lt (later timed member))).truth agrees'
      generalize pause delay (conditions.timerFirst (sent + 1)) behind = paused at quiet slept
      split
      · exact send ⟨.interrupted (sent + 1), paused.scene, paused.trace⟩
          (heeds_cut _ _ quiet slept.calm)
      · rename_i elapsed
        obtain ⟨ordered', later'⟩ := elapsed_pending slept elapsed ordered
        have tail : Heeds conditions (sent + 1) { behind with watch := truth' }
            ((broadcastFrom conditions delay total (sent + 1) paused.scene more).after
              paused.trace) :=
          heeds_elapsed quiet slept elapsed fun _ agrees'' => ih agrees'' ordered' later'
        have whole := send _ tail
        simp only [Played.after, ← List.append_assoc] at whole
        exact whole

end TickReplay.Feed
