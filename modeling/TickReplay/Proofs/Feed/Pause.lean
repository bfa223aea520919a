import TickReplay.Proofs.Feed.Watch

/- What a pause waits for. It ends at its deadline unless an instant before asks for an interruption,
   and then it ends at the first such instant. -/
namespace TickReplay.Feed

def changesAt (pending : List Timed) (time : Nat) : List Change :=
  (pending.filter fun timed => timed.time == time).map Timed.change

def InOrder (pending : List Timed) : Prop := pending.Pairwise fun a b => a.time ≤ b.time

/-- The watch k instants from now on, if only the schedule changes it. -/
def scheduled (now : Nat) (watch : Watch) (pending : List Timed) (k : Nat) : Watch :=
  watch.over (fun i => changesAt pending (now + i)) k

theorem changesAt_nil (time : Nat) : changesAt [] time = [] := rfl

theorem changesAt_cons (timed : Timed) (more : List Timed) (time : Nat) :
    changesAt (timed :: more) time =
      (if timed.time = time then [timed.change] else []) ++ changesAt more time := by
  by_cases same : timed.time = time <;> simp [changesAt, same]

theorem changesAt_before {pending : List Timed} {time : Nat}
    (later : ∀ timed ∈ pending, time < timed.time) : changesAt pending time = [] := by
  have none : (pending.filter fun timed => timed.time == time) = [] := by
    apply List.filter_eq_nil_iff.mpr
    intro timed member same
    have bound := later timed member
    have equal := eq_of_beq same
    omega
  rw [changesAt, none]
  rfl

theorem changesAt_filter (pending : List Timed) {now time : Nat} (later : now < time) :
    changesAt (pending.filter fun timed => now < timed.time) time = changesAt pending time := by
  rw [changesAt, List.filter_filter, changesAt]
  congr 1
  apply List.filter_congr
  intro timed _
  by_cases same : timed.time = time
  · simp [same, later]
  · simp [same]

theorem wakes_elapsed {deadline now : Nat} {timerFirst : Bool} {watch left : Watch}
    (woken : wakes deadline timerFirst now watch = some (.elapsed, left)) :
    deadline ≤ now ∧ Agrees left watch := by
  unfold wakes at woken
  split at woken
  · rename_i due
    simp only [Bool.and_eq_true, decide_eq_true_eq] at due
    cases woken
    exact ⟨due.1, .rfl⟩
  split at woken
  · cases woken
  rename_i calm
  split at woken
  · rename_i due
    cases woken
    exact ⟨due, agrees_see (Bool.eq_false_iff.mpr calm)⟩
  · cases woken

theorem wakes_interrupted {deadline now : Nat} {timerFirst : Bool} {watch left : Watch}
    (woken : wakes deadline timerFirst now watch = some (.interrupted, left)) :
    watch.interrupted := by
  unfold wakes at woken
  split at woken
  · cases woken
  split at woken
  · assumption
  split at woken <;> cases woken

theorem wakes_none {deadline now : Nat} {timerFirst : Bool} {watch : Watch}
    (woken : wakes deadline timerFirst now watch = none) :
    now < deadline ∧ watch.interrupted = false := by
  unfold wakes at woken
  split at woken
  · cases woken
  split at woken
  · cases woken
  rename_i calm
  split at woken
  · cases woken
  · exact ⟨by omega, Bool.eq_false_iff.mpr calm⟩

structure Slept (now steps : Nat) (watch : Watch) (pending : List Timed) (paused : Paused) :
    Prop where
  calm : ∀ k, now + k < paused.scene.now → (scheduled now watch pending k).interrupted = false
  elapsed : paused.waking = .elapsed →
    paused.scene.now = now + steps ∧
    paused.scene.pending = pending.filter (fun timed => now + steps < timed.time) ∧
    Agrees paused.scene.watch (scheduled now watch pending steps)
  interrupted : paused.waking = .interrupted →
    ∃ j, j ≤ steps ∧ paused.scene.now = now + j ∧ (scheduled now watch pending j).interrupted

theorem scheduled_zero {now : Nat} {pending : List Timed}
    (later : ∀ timed ∈ pending, now < timed.time) (watch : Watch) :
    scheduled now watch pending 0 = watch := by
  simp [scheduled, Watch.over, changesAt_before later]

theorem scheduled_calm {now k : Nat} {pending : List Timed}
    (later : ∀ timed ∈ pending, now + k < timed.time) {watch : Watch}
    (calm : watch.interrupted = false) : (scheduled now watch pending k).interrupted = false := by
  refine over_idle_interrupted watch (fun i bound => ?_) calm
  apply changesAt_before
  intro timed member
  have last := later timed member
  omega

theorem scheduled_later {now gap : Nat} {pending : List Timed}
    (later : ∀ timed ∈ pending, now + (gap + 1) ≤ timed.time) (watch : Watch) (j : Nat) :
    scheduled now watch pending (gap + 1 + j) =
      scheduled (now + (gap + 1)) watch.see pending j := by
  have idle : ∀ i, i ≤ gap → changesAt pending (now + i) = [] := by
    intro i bound
    apply changesAt_before
    intro timed member
    have next := later timed member
    omega
  have times : ∀ i, now + (gap + 1 + i) = now + (gap + 1) + i := by omega
  simp only [scheduled, over_add, over_idle_see watch idle, times]

theorem Slept.transfer {now steps : Nat} {watch other : Watch} {pending pending' : List Timed}
    {paused : Paused} (slept : Slept now steps watch pending paused)
    (alike : ∀ k, Agrees (scheduled now watch pending k) (scheduled now other pending' k))
    (kept : (pending.filter fun timed => now + steps < timed.time) =
      pending'.filter fun timed => now + steps < timed.time) :
    Slept now steps other pending' paused := by
  constructor
  · intro k before
    exact (alike k).interrupted_eq.symm.trans (slept.calm k before)
  · intro elapsed
    obtain ⟨time, left, last⟩ := slept.elapsed elapsed
    exact ⟨time, left.trans kept, last.trans (alike steps)⟩
  · intro cut
    obtain ⟨j, bound, time, asked⟩ := slept.interrupted cut
    exact ⟨j, bound, time, (alike j).interrupted_eq.symm.trans asked⟩

theorem Slept.truth {now steps : Nat} {watch other : Watch} {pending : List Timed} {paused : Paused}
    (slept : Slept now steps watch pending paused) (agrees : Agrees watch other) :
    Slept now steps other pending paused :=
  slept.transfer (fun k => agrees.over (fun i => changesAt pending (now + i)) k) rfl

theorem slept_woken {now steps : Nat} {timerFirst : Bool} {watch left : Watch}
    {pending : List Timed} {waking : Waking} (later : ∀ timed ∈ pending, now < timed.time)
    (woken : wakes (now + steps) timerFirst now watch = some (waking, left)) :
    Slept now steps watch pending ⟨waking, ⟨now, left, pending⟩, []⟩ := by
  refine ⟨fun k before => absurd before (by dsimp only; omega), ?_, ?_⟩
  · intro elapsed
    cases elapsed
    obtain ⟨due, agrees⟩ := wakes_elapsed woken
    have none : steps = 0 := by omega
    subst steps
    refine ⟨rfl, ?_, by rw [scheduled_zero later]; exact agrees⟩
    exact (List.filter_eq_self.mpr fun timed member => by simpa using later timed member).symm
  · intro cut
    cases cut
    exact ⟨0, Nat.zero_le _, rfl, by rw [scheduled_zero later]; exact wakes_interrupted woken⟩

theorem slept_out {now steps : Nat} {watch : Watch} {pending : List Timed}
    (later : ∀ timed ∈ pending, now + steps < timed.time) (some : 0 < steps)
    (calm : watch.interrupted = false) :
    Slept now steps watch pending ⟨.elapsed, ⟨now + steps, watch.see, pending⟩, []⟩ := by
  obtain ⟨gap, rfl⟩ : ∃ gap, steps = gap + 1 := ⟨steps - 1, by omega⟩
  refine ⟨?_, fun _ => ⟨rfl, ?_, ?_⟩, nofun⟩
  · intro k before
    refine scheduled_calm (fun timed member => ?_) calm
    have last := later timed member
    have bound : now + k < now + (gap + 1) := before
    omega
  · exact (List.filter_eq_self.mpr fun timed member => by simpa using later timed member).symm
  · have last := scheduled_later (fun timed member => Nat.le_of_lt (later timed member)) watch 0
    rw [Nat.add_zero, scheduled_zero later] at last
    rw [last]
    exact .rfl

theorem slept_now {now steps : Nat} {watch : Watch} {timed : Timed} {more : List Timed}
    {paused : Paused} (here : timed.time = now)
    (slept : Slept now steps (watch.apply timed.change) more paused) :
    Slept now steps watch (timed :: more) paused := by
  have same : ∀ k, scheduled now watch (timed :: more) k =
      scheduled now (watch.apply timed.change) more k := by
    intro k
    refine over_first watch [timed.change] ?_ (fun i => ?_) k
    · rw [changesAt_cons, Nat.add_zero, if_pos here]
    · rw [changesAt_cons, if_neg (by omega)]
      rfl
  apply slept.transfer
  · intro k
    rw [same]
    exact .rfl
  · rw [List.filter_cons_of_neg (by simp [here])]

theorem slept_later {now gap steps : Nat} {watch : Watch} {pending : List Timed} {paused : Paused}
    (later : ∀ timed ∈ pending, now + (gap + 1) ≤ timed.time) (calm : watch.interrupted = false)
    (slept : Slept (now + (gap + 1)) steps watch.see pending paused) :
    Slept now (gap + 1 + steps) watch pending paused := by
  have shift := scheduled_later later watch
  refine ⟨?_, ?_, ?_⟩
  · intro k before
    by_cases early : k ≤ gap
    · refine scheduled_calm (fun timed member => ?_) calm
      have next := later timed member
      omega
    · obtain ⟨j, rfl⟩ : ∃ j, k = gap + 1 + j := ⟨k - (gap + 1), by omega⟩
      rw [shift]
      exact slept.calm j (by omega)
  · intro elapsed
    obtain ⟨time, left, agrees⟩ := slept.elapsed elapsed
    have sum : now + (gap + 1) + steps = now + (gap + 1 + steps) := by omega
    rw [sum] at time left
    exact ⟨time, left, by rw [shift]; exact agrees⟩
  · intro cut
    obtain ⟨j, bound, time, asked⟩ := slept.interrupted cut
    exact ⟨gap + 1 + j, by omega, by omega, by rw [shift]; exact asked⟩

theorem slept_after {now steps : Nat} {watch : Watch} {pending : List Timed} {paused : Paused}
    (lines : List Log.Entry) (slept : Slept now steps watch pending paused) :
    Slept now steps watch pending (paused.after lines) :=
  ⟨slept.calm, slept.elapsed, slept.interrupted⟩

theorem sleep_slept {deadline now : Nat} (timerFirst : Bool) {steps : Nat} {watch : Watch}
    {pending : List Timed} (ends : deadline = now + steps) (ordered : InOrder pending)
    (later : ∀ timed ∈ pending, now ≤ timed.time) :
    Slept now steps watch pending (sleep deadline timerFirst now watch pending) := by
  subst deadline
  -- `steps` shrinks with every change that is waited for, so the deadline itself stays fixed.
  induction pending generalizing now steps watch with
  | nil =>
    simp only [sleep]
    cases woken : wakes (now + steps) timerFirst now watch with
    | none =>
      obtain ⟨before, calm⟩ := wakes_none woken
      exact slept_out (by simp) (by omega) calm
    | some result => exact slept_woken (by simp) woken
  | cons timed more ih =>
    obtain ⟨first, tail⟩ := List.pairwise_cons.mp ordered
    have from_now := later timed (by simp)
    simp only [sleep]
    split
    · rename_i due
      have here : timed.time = now := by omega
      refine slept_after _ (slept_now here (ih tail fun t member => ?_))
      have next := first t member
      omega
    · rename_i ahead
      have all : ∀ t ∈ timed :: more, timed.time ≤ t.time := by
        intro t member
        rcases List.mem_cons.mp member with rfl | member
        · exact Nat.le_refl _
        · exact first t member
      cases woken : wakes (now + steps) timerFirst now watch with
      | some result =>
        refine slept_woken (fun t member => ?_) woken
        have next := all t member
        omega
      | none =>
        obtain ⟨before, calm⟩ := wakes_none woken
        dsimp only
        split
        · refine slept_out (fun t member => ?_) (by omega) calm
          have next := all t member
          omega
        · obtain ⟨gap, ahead⟩ : ∃ gap, timed.time = now + (gap + 1) :=
            ⟨timed.time - now - 1, by omega⟩
          obtain ⟨left, rfl⟩ : ∃ left, steps = gap + 1 + left := ⟨steps - (gap + 1), by omega⟩
          have sum : now + (gap + 1 + left) = now + (gap + 1) + left := by omega
          refine slept_after _ (slept_later (fun t member => ?_) calm (slept_now ahead ?_))
          · have next := all t member
            omega
          · rw [sum, ahead]
            refine ih tail ?_
            intro t member
            have next := first t member
            omega

/-- The first whole millisecond, in nanoseconds, that is not before an instant. -/
structure RoundedUp (instant whole : Nat) : Prop where
  whole_eq : whole % 1000000 = 0
  not_before : instant ≤ whole
  first : whole < instant + 1000000

theorem RoundedUp.unique {instant whole other : Nat} (one : RoundedUp instant whole)
    (two : RoundedUp instant other) : whole = other := by
  obtain ⟨whole_eq, not_before, first⟩ := one
  obtain ⟨other_eq, not_before', first'⟩ := two
  omega

/-- In nanoseconds, with 365 days a year. -/
def thirtyYears : Nat := 946080000000000000

/-- When a pause is over that nothing ends before. -/
structure Due (now : Nat) (length : Duration) (time : Nat) : Prop where
  rounded : RoundedUp (now + min length.total thirtyYears) time
  exact : (now + length.total) % 1000000 = 0 → length.total ≤ thirtyYears →
    time = now + length.total

theorem Due.of_rounded {now time : Nat} {length : Duration}
    (rounded : RoundedUp (now + min length.total thirtyYears) time) : Due now length time := by
  refine ⟨rounded, fun whole short => ?_⟩
  rw [Nat.min_eq_left short] at rounded
  exact rounded.unique ⟨whole, Nat.le_refl _, by omega⟩

theorem Due.unique {now time other : Nat} {length : Duration} (one : Due now length time)
    (two : Due now length other) : time = other :=
  one.rounded.unique two.rounded

theorem timerTick_rounded (instant : Nat) : RoundedUp instant (timerTick instant) := by
  unfold timerTick
  exact ⟨Nat.mul_mod_left _ _, by omega, by omega⟩

theorem pauseEnd_due (now : Nat) (length : Duration) : Due now length (pauseEnd now length) :=
  .of_rounded (timerTick_rounded _)

theorem le_pauseEnd (now : Nat) (length : Duration) : now ≤ pauseEnd now length :=
  Nat.le_trans (Nat.le_add_right _ _) (pauseEnd_due now length).rounded.not_before

/-- Pauses that begin at whole milliseconds all take as long as the one that begins at 0. -/
theorem pauseEnd_of_whole {now : Nat} (whole : now % 1000000 = 0) (length : Duration) :
    pauseEnd now length = now + pauseEnd 0 length := by
  obtain ⟨whole_eq, not_before, first⟩ := (pauseEnd_due 0 length).rounded
  refine (pauseEnd_due now length).rounded.unique ⟨?_, ?_, ?_⟩
  · omega
  · omega
  · omega

theorem pause_slept (length : Duration) (timerFirst : Bool) (scene : Scene)
    (ordered : InOrder scene.pending) (later : ∀ timed ∈ scene.pending, scene.now ≤ timed.time) :
    Slept scene.now (pauseEnd scene.now length - scene.now) scene.watch scene.pending
      (pause length timerFirst scene) :=
  sleep_slept timerFirst (Nat.add_sub_cancel' (le_pauseEnd scene.now length)).symm ordered later

theorem mem_insertTimed (timed t : Timed) (pending : List Timed) :
    t ∈ insertTimed timed pending ↔ t = timed ∨ t ∈ pending := by
  induction pending with
  | nil => simp [insertTimed]
  | cons first more ih =>
    simp only [insertTimed]
    split
    · exact List.mem_cons
    · simp only [List.mem_cons, ih]
      exact or_left_comm

theorem inOrder_insertTimed (timed : Timed) {pending : List Timed} (ordered : InOrder pending) :
    InOrder (insertTimed timed pending) := by
  induction pending with
  | nil => exact List.pairwise_singleton _ timed
  | cons first more ih =>
    obtain ⟨least, tail⟩ := List.pairwise_cons.mp ordered
    simp only [insertTimed]
    split
    · rename_i before
      refine List.pairwise_cons.mpr ⟨?_, ordered⟩
      intro t member
      rcases List.mem_cons.mp member with rfl | member
      · exact Nat.le_of_lt before
      · exact Nat.le_trans (Nat.le_of_lt before) (least t member)
    · rename_i after
      refine List.pairwise_cons.mpr ⟨?_, ih tail⟩
      intro t member
      rcases (mem_insertTimed timed t more).mp member with rfl | member
      · omega
      · exact least t member

theorem changesAt_insertTimed (timed : Timed) {pending : List Timed} (ordered : InOrder pending)
    (time : Nat) : changesAt (insertTimed timed pending) time =
      changesAt pending time ++ changesAt [timed] time := by
  induction pending with
  | nil => rfl
  | cons first more ih =>
    obtain ⟨least, tail⟩ := List.pairwise_cons.mp ordered
    simp only [insertTimed]
    split
    · rename_i before
      by_cases here : timed.time = time
      · have later : changesAt (first :: more) time = [] := by
          apply changesAt_before
          intro t member
          rcases List.mem_cons.mp member with rfl | member
          · omega
          · have bound := least t member
            omega
        rw [changesAt_cons timed, later, List.append_nil, List.nil_append, changesAt_cons,
          changesAt_nil, List.append_nil]
      · rw [changesAt_cons timed, changesAt_cons timed, if_neg here, changesAt_nil]
        simp
    · rw [changesAt_cons, changesAt_cons, ih tail, List.append_assoc]

theorem foldl_insertTimed (changes : List Timed) {pending : List Timed} (ordered : InOrder pending) :
    let sorted := changes.foldl (fun sorted timed => insertTimed timed sorted) pending
    InOrder sorted ∧ (∀ t, t ∈ sorted ↔ t ∈ pending ∨ t ∈ changes) ∧
      ∀ time, changesAt sorted time = changesAt pending time ++ changesAt changes time := by
  induction changes generalizing pending with
  | nil => simp [ordered, changesAt_nil]
  | cons timed more ih =>
    obtain ⟨result, all, times⟩ := ih (inOrder_insertTimed timed ordered)
    refine ⟨result, ?_, ?_⟩
    · intro t
      simp only [List.foldl_cons, all, mem_insertTimed, List.mem_cons]
      rw [or_assoc, or_left_comm]
    · intro time
      simp only [List.foldl_cons, times, changesAt_insertTimed timed ordered]
      rw [changesAt_cons timed more, changesAt_cons timed [], changesAt_nil]
      simp

theorem schedule_inOrder (changes : List Timed) : InOrder (schedule changes) :=
  (foldl_insertTimed changes List.Pairwise.nil).1

theorem mem_schedule (changes : List Timed) (t : Timed) : t ∈ schedule changes ↔ t ∈ changes := by
  have members := (foldl_insertTimed changes List.Pairwise.nil).2.1 t
  simp only [List.not_mem_nil, false_or] at members
  exact members

/-- Sorting by time leaves the changes of every instant as they were listed. -/
theorem changesAt_schedule (changes : List Timed) (time : Nat) :
    changesAt (schedule changes) time = changesAt changes time :=
  (foldl_insertTimed changes List.Pairwise.nil).2.2 time

end TickReplay.Feed
