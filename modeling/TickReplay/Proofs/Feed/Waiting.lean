import TickReplay.Proofs.Feed.Pacing
import TickReplay.Proofs.Feed.Ties

/- Why a pause ends, and with what. A feed waits in steps: it makes a change, passes idle news over or
   goes on to the next change, so a finite schedule has only so many of them. Whatever its steps, a
   pause ends with the first interruption that is news to it, or else at its deadline. -/
namespace TickReplay.Feed

/-- The watch behind every change up to an instant, if nobody looks at it. -/
def Scene.changedBy (scene : Scene) (time : Nat) : Watch :=
  (dueBy time scene.pending).foldl Watch.apply scene.watch

def SentAt (scene : Scene) (time : Nat) : Prop :=
  ∃ earlier timed later, scene.pending = earlier ++ timed :: later ∧ timed.time = time ∧
    timed.change ≠ .disconnect ∧
    ((earlier.map Timed.change).foldl Watch.apply scene.watch).connected

/-- The changes of an instant leave an interruption, and one that is news: a value was sent at this
    instant, or nobody has looked at what was there from the beginning. -/
structure NewlyAsks (scene : Scene) (time : Nat) : Prop where
  request_eq : (scene.changedBy time).request = .interrupt
  news : SentAt scene time ∨ (time = scene.now ∧ scene.watch.unseen)

/-- The first new interruption before a deadline, or else the deadline. -/
inductive Answers (deadline : Nat) (scene : Scene) : Waking → Nat → Prop where
  | interrupted {time : Nat} (before : time < deadline) (asks : NewlyAsks scene time)
      (first : ∀ earlier, earlier < time → ¬ NewlyAsks scene earlier) :
      Answers deadline scene .interrupted time
  | elapsed (never : ∀ time, time < deadline → ¬ NewlyAsks scene time) :
      Answers deadline scene .elapsed deadline

/-- One step of a wait that goes on. The changes of an instant are made before the feed turns; it turns
    again behind news that asks for nothing, and sleeps only while there is no news. -/
inductive Goes (deadline : Nat) : Scene → Scene → Prop where
  | changes {now : Nat} {watch : Watch} {timed : Timed} {more : List Timed}
      (due : timed.time ≤ now) :
      Goes deadline ⟨now, watch, timed :: more⟩ ⟨now, watch.apply timed.change, more⟩
  | continues {now : Nat} {watch : Watch} {pending : List Timed}
      (made : ∀ timed ∈ pending.head?, now < timed.time) (unseen : watch.unseen)
      (nothing : watch.request = .none) :
      Goes deadline ⟨now, watch, pending⟩ ⟨now, watch.see, pending⟩
  | reaches {now : Nat} {watch : Watch} {timed : Timed} {more : List Timed}
      (seen : watch.unseen = false) (connected : watch.connected) (ahead : now < timed.time)
      (inside : timed.time ≤ deadline) :
      Goes deadline ⟨now, watch, timed :: more⟩ ⟨timed.time, watch, timed :: more⟩

/-- How a wait stops, and when: the timer is up, with or without a sleep to the deadline, an
    interruption is found, or the controller is found gone and only the time is left to sleep out. -/
inductive Stops (deadline : Nat) : Scene → Waking → Nat → Prop where
  | late {now : Nat} {watch : Watch} {pending : List Timed}
      (made : ∀ timed ∈ pending.head?, now < timed.time) (due : deadline ≤ now) :
      Stops deadline ⟨now, watch, pending⟩ .elapsed now
  | slept {now : Nat} {watch : Watch} {pending : List Timed} (seen : watch.unseen = false)
      (connected : watch.connected) (early : now < deadline)
      (nobody : ∀ timed ∈ pending.head?, deadline < timed.time) :
      Stops deadline ⟨now, watch, pending⟩ .elapsed deadline
  | asked {now : Nat} {watch : Watch} {pending : List Timed}
      (made : ∀ timed ∈ pending.head?, now < timed.time) (asks : watch.interrupted) :
      Stops deadline ⟨now, watch, pending⟩ .interrupted now
  | deaf {now : Nat} {watch : Watch} {pending : List Timed}
      (made : ∀ timed ∈ pending.head?, now < timed.time) (seen : watch.unseen = false)
      (gone : watch.connected = false) (early : now < deadline) :
      Stops deadline ⟨now, watch, pending⟩ .elapsed deadline

inductive Steps (deadline : Nat) : Nat → Scene → Scene → Prop where
  | none {scene : Scene} : Steps deadline 0 scene scene
  | next {n : Nat} {scene behind left : Scene} (first : Goes deadline scene behind)
      (rest : Steps deadline n behind left) : Steps deadline (n + 1) scene left

structure Waiting (deadline : Nat) (scene : Scene) : Prop where
  ordered : InOrder scene.pending
  later : ∀ timed ∈ scene.pending, scene.now ≤ timed.time
  ahead : scene.now ≤ deadline
  apart : ∀ timed ∈ scene.pending, timed.time ≠ deadline
  calm_end : scene.now = deadline → scene.watch.unseen = false

theorem later_of_head {pending : List Timed} {time : Nat} (ordered : InOrder pending)
    (made : ∀ timed ∈ pending.head?, time < timed.time) : ∀ timed ∈ pending, time < timed.time := by
  cases pending with
  | nil => simp
  | cons first more =>
    obtain ⟨least, _⟩ := List.pairwise_cons.mp ordered
    have ahead : time < first.time := made first rfl
    intro timed member
    rcases List.mem_cons.mp member with rfl | member
    · exact ahead
    · exact Nat.lt_of_lt_of_le ahead (least timed member)

theorem Goes.waiting {deadline : Nat} {scene behind : Scene} (goes : Goes deadline scene behind)
    (waiting : Waiting deadline scene) : Waiting deadline behind := by
  obtain ⟨ordered, later, ahead, apart, calm_end⟩ := waiting
  cases goes with
  | @changes now watch timed more due =>
    obtain ⟨least, tail⟩ := List.pairwise_cons.mp ordered
    have here : timed.time = now := Nat.le_antisymm due (later timed (by simp))
    refine ⟨tail, fun t member => ?_, ahead, fun t member => ?_, fun reached => ?_⟩
    · exact here ▸ least t member
    · exact apart t (List.mem_cons_of_mem timed member)
    · exact absurd (here.trans reached) (apart timed (by simp))
  | continues made unseen nothing => exact ⟨ordered, later, ahead, apart, fun _ => rfl⟩
  | @reaches now watch timed more seen connected before inside =>
    obtain ⟨least, _⟩ := List.pairwise_cons.mp ordered
    refine ⟨ordered, fun t member => ?_, inside, apart, fun _ => seen⟩
    rcases List.mem_cons.mp member with rfl | member
    · exact Nat.le_refl _
    · exact least t member

/-- Steps that are left at most: a change takes one for itself, one to get to it and one for its news. -/
def Scene.stepsLeft (scene : Scene) : Nat :=
  3 * scene.pending.length + (if scene.watch.unseen then 1 else 0) +
    (if scene.pending.head?.any fun timed => scene.now < timed.time then 1 else 0)

theorem stepsLeft_le (scene : Scene) : scene.stepsLeft ≤ 3 * scene.pending.length + 2 := by
  unfold Scene.stepsLeft
  split <;> split <;> omega

theorem Goes.stepsLeft_lt {deadline : Nat} {scene behind : Scene}
    (goes : Goes deadline scene behind) : behind.stepsLeft < scene.stepsLeft := by
  cases goes with
  | @changes now watch timed more due =>
    have bound := stepsLeft_le ⟨now, watch.apply timed.change, more⟩
    have least : 3 * (timed :: more).length ≤ Scene.stepsLeft ⟨now, watch, timed :: more⟩ := by
      simp only [Scene.stepsLeft, Nat.add_assoc]
      exact Nat.le_add_right _ _
    simp only [List.length_cons] at bound least
    omega
  | continues made unseen nothing => simp [Scene.stepsLeft, Watch.see, unseen]
  | reaches seen connected ahead inside => simp [Scene.stepsLeft, ahead]

theorem Steps.le {deadline n : Nat} {scene left : Scene} (steps : Steps deadline n scene left) :
    n + left.stepsLeft ≤ scene.stepsLeft := by
  induction steps with
  | none => omega
  | next first rest ih =>
    have less := first.stepsLeft_lt
    omega

theorem Steps.waiting {deadline n : Nat} {scene left : Scene} (steps : Steps deadline n scene left)
    (waiting : Waiting deadline scene) : Waiting deadline left := by
  induction steps with
  | none => exact waiting
  | next first rest ih => exact ih (first.waiting waiting)

theorem Waiting.goes_or_stops {deadline : Nat} {scene : Scene} (waiting : Waiting deadline scene) :
    (∃ behind, Goes deadline scene behind) ∨ ∃ waking time, Stops deadline scene waking time := by
  obtain ⟨now, watch, pending⟩ := scene
  have ahead : now ≤ deadline := waiting.ahead
  by_cases due : ∃ timed ∈ pending.head?, timed.time ≤ now
  · obtain ⟨timed, first, due⟩ := due
    obtain ⟨more, rfl⟩ := List.head?_eq_some_iff.mp first
    exact .inl ⟨_, .changes due⟩
  have made : ∀ timed ∈ pending.head?, now < timed.time := by
    intro timed first
    exact Nat.not_le.mp fun early => due ⟨timed, first, early⟩
  cases news : watch.unseen with
  | true =>
    cases asked : watch.request with
    | none => exact .inl ⟨_, .continues made news asked⟩
    | interrupt => exact .inr ⟨_, _, .asked made (by simp [Watch.interrupted, news, asked])⟩
  | false =>
    by_cases early : now < deadline
    swap
    · exact .inr ⟨_, _, .late made (Nat.not_lt.mp early)⟩
    cases there : watch.connected with
    | false => exact .inr ⟨_, _, .deaf made news there early⟩
    | true =>
      by_cases next : ∃ timed ∈ pending.head?, timed.time ≤ deadline
      · obtain ⟨timed, first, inside⟩ := next
        obtain ⟨more, rfl⟩ := List.head?_eq_some_iff.mp first
        exact .inl ⟨_, .reaches news there (made timed first) inside⟩
      · refine .inr ⟨_, _, .slept news there early fun timed first => ?_⟩
        exact Nat.not_le.mp fun inside => next ⟨timed, first, inside⟩

theorem sentAt_pending {scene : Scene} {time : Nat} (sent : SentAt scene time) :
    ∃ timed ∈ scene.pending, timed.time = time := by
  obtain ⟨earlier, timed, later, split, here, _⟩ := sent
  exact ⟨timed, by rw [split]; simp, here⟩

theorem unseen_apply (watch : Watch) (change : Change) :
    (watch.apply change).unseen ↔ watch.unseen ∨ (change ≠ .disconnect ∧ watch.connected) := by
  cases there : watch.connected <;> cases change <;> simp [Watch.apply, there]

theorem newlyAsks_changes {now : Nat} {watch : Watch} {timed : Timed} {more : List Timed}
    (here : timed.time = now) (later : ∀ t ∈ more, now ≤ t.time) (time : Nat) :
    NewlyAsks ⟨now, watch, timed :: more⟩ time ↔
      NewlyAsks ⟨now, watch.apply timed.change, more⟩ time := by
  have sent : SentAt ⟨now, watch, timed :: more⟩ time ↔
      (time = now ∧ timed.change ≠ .disconnect ∧ watch.connected) ∨
        SentAt ⟨now, watch.apply timed.change, more⟩ time := by
    constructor
    · rintro ⟨earlier, change, rest, split, at_time, value, there⟩
      cases earlier with
      | nil =>
        obtain ⟨rfl, _⟩ := List.cons.inj split
        exact .inl ⟨at_time.symm.trans here, value, there⟩
      | cons first earlier =>
        obtain ⟨rfl, tail⟩ := List.cons.inj split
        exact .inr ⟨earlier, change, rest, tail, at_time, value, there⟩
    · rintro (⟨rfl, value, there⟩ | ⟨earlier, change, rest, tail, at_time, value, there⟩)
      · exact ⟨[], timed, more, rfl, here, value, there⟩
      · refine ⟨timed :: earlier, change, rest, ?_, at_time, value, there⟩
        exact congrArg (timed :: ·) tail
  have news : (SentAt ⟨now, watch, timed :: more⟩ time ∨ (time = now ∧ watch.unseen)) ↔
      (SentAt ⟨now, watch.apply timed.change, more⟩ time ∨
        (time = now ∧ (watch.apply timed.change).unseen)) := by
    rw [sent, unseen_apply]
    tauto
  by_cases reached : now ≤ time
  · have same : Scene.changedBy ⟨now, watch, timed :: more⟩ time =
        Scene.changedBy ⟨now, watch.apply timed.change, more⟩ time := by
      rw [Scene.changedBy, (due_cons (by omega : timed.time ≤ time) more).1]
      rfl
    constructor
    · intro asks
      exact ⟨same ▸ asks.request_eq, news.mp asks.news⟩
    · intro asks
      exact ⟨same ▸ asks.request_eq, news.mpr asks.news⟩
  · have silent : ¬ (SentAt ⟨now, watch.apply timed.change, more⟩ time ∨
        (time = now ∧ (watch.apply timed.change).unseen)) := by
      rintro (sent | ⟨rfl, _⟩)
      · obtain ⟨t, member, rfl⟩ := sentAt_pending sent
        exact reached (later t member)
      · exact reached (Nat.le_refl _)
    exact ⟨fun asks => absurd (news.mp asks.news) silent, fun asks => absurd asks.news silent⟩

theorem newlyAsks_now {now : Nat} {watch : Watch} {pending : List Timed}
    (later : ∀ timed ∈ pending, now < timed.time) :
    NewlyAsks ⟨now, watch, pending⟩ now ↔ watch.interrupted := by
  have unsent : ¬ SentAt ⟨now, watch, pending⟩ now := by
    intro sent
    obtain ⟨timed, member, here⟩ := sentAt_pending sent
    exact Nat.ne_of_gt (later timed member) here
  have still : Scene.changedBy ⟨now, watch, pending⟩ now = watch := by
    rw [Scene.changedBy, (none_due later).1]
    rfl
  constructor
  · rintro ⟨request, news⟩
    rcases news with sent | ⟨_, unseen⟩
    · exact absurd sent unsent
    · rw [still] at request
      have seen : watch.unseen = true := unseen
      simp [Watch.interrupted, seen, request]
  · intro asks
    have unseen : watch.unseen := (Bool.and_eq_true_iff.mp asks).1
    exact ⟨by rw [still]; exact request_of_interrupted asks, .inr ⟨rfl, unseen⟩⟩

theorem newlyAsks_see {now : Nat} {watch : Watch} {pending : List Timed}
    (later : ∀ timed ∈ pending, now < timed.time) (nothing : watch.request = .none) (time : Nat) :
    NewlyAsks ⟨now, watch, pending⟩ time ↔ NewlyAsks ⟨now, watch.see, pending⟩ time := by
  have agrees := agrees_looked nothing
  by_cases here : time = now
  · subst here
    rw [newlyAsks_now later, newlyAsks_now later, agrees.interrupted_eq]
  have request : (Scene.changedBy ⟨now, watch, pending⟩ time).request =
      (Scene.changedBy ⟨now, watch.see, pending⟩ time).request :=
    (agrees.foldl (dueBy time pending)).request_eq
  have sent : SentAt ⟨now, watch, pending⟩ time ↔ SentAt ⟨now, watch.see, pending⟩ time := by
    have connected (earlier : List Timed) :=
      (agrees.foldl (earlier.map Timed.change)).connected_eq
    simp only [SentAt, connected]
  constructor
  · rintro ⟨asked, news⟩
    exact ⟨request ▸ asked, .inl (sent.mp (news.resolve_right fun first => here first.1))⟩
  · rintro ⟨asked, news⟩
    exact ⟨request ▸ asked, .inl (sent.mpr (news.resolve_right fun first => here first.1))⟩

theorem newlyAsks_reaches {now next : Nat} {watch : Watch} {pending : List Timed}
    (seen : watch.unseen = false) (time : Nat) :
    NewlyAsks ⟨now, watch, pending⟩ time ↔ NewlyAsks ⟨next, watch, pending⟩ time := by
  have silent : ¬ watch.unseen := by simp [seen]
  constructor
  · rintro ⟨asked, news⟩
    exact ⟨asked, .inl (news.resolve_right fun first => silent first.2)⟩
  · rintro ⟨asked, news⟩
    exact ⟨asked, .inl (news.resolve_right fun first => silent first.2)⟩

/-- No step of a wait makes or loses an interruption. -/
theorem Goes.newlyAsks_iff {deadline : Nat} {scene behind : Scene}
    (goes : Goes deadline scene behind) (waiting : Waiting deadline scene) (time : Nat) :
    NewlyAsks scene time ↔ NewlyAsks behind time := by
  cases goes with
  | @changes now watch timed more due =>
    obtain ⟨least, _⟩ := List.pairwise_cons.mp waiting.ordered
    have here : timed.time = now := Nat.le_antisymm due (waiting.later timed (by simp))
    exact newlyAsks_changes here (fun t member => here ▸ least t member) time
  | continues made unseen nothing =>
    exact newlyAsks_see (later_of_head waiting.ordered made) nothing time
  | reaches seen connected ahead inside => exact newlyAsks_reaches seen time

theorem Answers.congr {deadline : Nat} {scene other : Scene} {waking : Waking} {time : Nat}
    (same : ∀ time, NewlyAsks scene time ↔ NewlyAsks other time)
    (answers : Answers deadline other waking time) : Answers deadline scene waking time := by
  cases answers with
  | interrupted before asks first =>
    refine .interrupted before ((same _).mpr asks) fun earlier sooner => ?_
    rw [same]
    exact first earlier sooner
  | elapsed never =>
    refine .elapsed fun time early => ?_
    rw [same]
    exact never time early

theorem foldl_gone {watch : Watch} (gone : watch.connected = false) (changes : List Change) :
    changes.foldl Watch.apply watch = watch := by
  induction changes with
  | nil => rfl
  | cons change more ih => rw [List.foldl_cons, (apply_of_gone gone change).1, ih]

/-- A wait stops with what its scene asks for. -/
theorem Stops.answers {deadline : Nat} {scene : Scene} {waking : Waking} {time : Nat}
    (stops : Stops deadline scene waking time) (waiting : Waiting deadline scene) :
    Answers deadline scene waking time := by
  obtain ⟨ordered, _, ahead, _, calm_end⟩ := waiting
  cases stops with
  | @late _ watch pending made due =>
    have later := later_of_head ordered made
    cases Nat.le_antisymm ahead due
    refine .elapsed fun time early asks => ?_
    rcases asks.news with sent | ⟨here, _⟩
    · obtain ⟨timed, member, rfl⟩ := sentAt_pending sent
      exact Nat.lt_asymm early (later timed member)
    · exact Nat.ne_of_lt early here
  | @slept now watch pending seen connected early nobody =>
    have later := later_of_head ordered nobody
    refine .elapsed fun time early asks => ?_
    rcases asks.news with sent | ⟨_, unseen⟩
    · obtain ⟨timed, member, rfl⟩ := sentAt_pending sent
      exact Nat.lt_asymm early (later timed member)
    · exact absurd unseen (by simp [seen])
  | @asked _ watch pending made asks =>
    have later := later_of_head ordered made
    have unseen : watch.unseen := (Bool.and_eq_true_iff.mp asks).1
    have before : time ≠ deadline := by
      intro reached
      have seen : watch.unseen = false := calm_end reached
      rw [unseen] at seen
      contradiction
    refine .interrupted (Nat.lt_of_le_of_ne ahead before) ((newlyAsks_now later).mpr asks) ?_
    intro earlier sooner given
    rcases given.news with sent | ⟨here, _⟩
    · obtain ⟨timed, member, rfl⟩ := sentAt_pending sent
      exact Nat.lt_asymm sooner (later timed member)
    · exact Nat.ne_of_lt sooner here
  | @deaf now watch pending made seen gone early =>
    refine .elapsed fun time _ asks => ?_
    rcases asks.news with ⟨earlier, _, _, _, _, _, there⟩ | ⟨_, unseen⟩
    · rw [foldl_gone gone] at there
      exact absurd there (by simp [gone])
    · exact absurd unseen (by simp [seen])

theorem Steps.answers {deadline n : Nat} {scene left : Scene} {waking : Waking} {time : Nat}
    (steps : Steps deadline n scene left) (waiting : Waiting deadline scene)
    (stops : Stops deadline left waking time) : Answers deadline scene waking time := by
  induction steps with
  | none => exact stops.answers waiting
  | next first rest ih =>
    exact (ih (first.waiting waiting) stops).congr (first.newlyAsks_iff waiting)

def Ends (deadline : Nat) (scene : Scene) (waking : Waking) (time : Nat) : Prop :=
  ∃ n left, Steps deadline n scene left ∧ Stops deadline left waking time

theorem Stops.ends {deadline : Nat} {scene : Scene} {waking : Waking} {time : Nat}
    (stops : Stops deadline scene waking time) : Ends deadline scene waking time :=
  ⟨0, scene, .none, stops⟩

theorem Goes.ends {deadline : Nat} {scene behind : Scene} {waking : Waking} {time : Nat}
    (goes : Goes deadline scene behind) (ends : Ends deadline behind waking time) :
    Ends deadline scene waking time := by
  obtain ⟨n, left, steps, stops⟩ := ends
  exact ⟨n + 1, left, .next goes steps, stops⟩

theorem stops_of_wakes {deadline now : Nat} {timerFirst : Bool} {watch left : Watch}
    {waking : Waking} {pending : List Timed} (made : ∀ timed ∈ pending.head?, now < timed.time)
    (woken : wakes deadline timerFirst now watch = some (waking, left)) :
    Stops deadline ⟨now, watch, pending⟩ waking now := by
  cases waking with
  | elapsed => exact .late made (wakes_elapsed woken).1
  | interrupted => exact .asked made (wakes_interrupted woken)

theorem ends_look {deadline now : Nat} {watch : Watch} {waking : Waking} {time : Nat}
    {pending : List Timed} (made : ∀ timed ∈ pending.head?, now < timed.time)
    (calm : watch.interrupted = false)
    (ends : Ends deadline ⟨now, watch.see, pending⟩ waking time) :
    Ends deadline ⟨now, watch, pending⟩ waking time := by
  cases news : watch.unseen with
  | false => rwa [see_of_seen news] at ends
  | true => exact Goes.ends (.continues made news (request_of_calm calm news)) ends

theorem stops_quiet {deadline now : Nat} (watch : Watch) {pending : List Timed}
    (early : now < deadline) (nobody : ∀ timed ∈ pending.head?, deadline < timed.time) :
    Stops deadline ⟨now, watch.see, pending⟩ .elapsed deadline := by
  have made : ∀ timed ∈ pending.head?, now < timed.time := by
    intro timed first
    exact Nat.lt_trans early (nobody timed first)
  cases there : watch.connected with
  | true => exact .slept rfl there early nobody
  | false => exact .deaf made rfl there early

theorem sleep_ends (deadline : Nat) (timerFirst : Bool) (now : Nat) (watch : Watch)
    (pending : List Timed) :
    let slept := sleep deadline timerFirst now watch pending
    Ends deadline ⟨now, watch, pending⟩ slept.waking slept.scene.now := by
  induction pending generalizing now watch with
  | nil =>
    have made : ∀ timed ∈ ([] : List Timed).head?, now < timed.time := by simp
    cases woken : wakes deadline timerFirst now watch with
    | some result =>
      rw [sleep_woken made woken]
      exact (stops_of_wakes made woken).ends
    | none =>
      obtain ⟨early, calm⟩ := wakes_none woken
      simp only [sleep, woken]
      exact ends_look made calm (stops_quiet watch early (by simp)).ends
  | cons timed more ih =>
    by_cases due : timed.time ≤ now
    · have rest := ih now (watch.apply timed.change)
      simp only [sleep, due, ↓reduceIte]
      exact Goes.ends (.changes due) rest
    have made : ∀ t ∈ (timed :: more).head?, now < t.time := by
      intro t first
      cases Option.mem_some.mp first
      exact Nat.not_le.mp due
    cases woken : wakes deadline timerFirst now watch with
    | some result =>
      rw [sleep_woken made woken]
      exact (stops_of_wakes made woken).ends
    | none =>
      obtain ⟨early, calm⟩ := wakes_none woken
      simp only [sleep, due, woken, ↓reduceIte]
      refine ends_look made calm ?_
      by_cases past : deadline < timed.time
      · simp only [past, ↓reduceIte]
        refine (stops_quiet watch early fun t first => ?_).ends
        cases Option.mem_some.mp first
        exact past
      have inside : timed.time ≤ deadline := Nat.not_lt.mp past
      simp only [past, ↓reduceIte]
      cases there : watch.connected with
      | true =>
        have rest := ih timed.time (watch.see.apply timed.change)
        have reached : Goes deadline ⟨now, watch.see, timed :: more⟩
            ⟨timed.time, watch.see, timed :: more⟩ :=
          .reaches rfl there (Nat.not_le.mp due) inside
        exact reached.ends (Goes.ends (.changes (Nat.le_refl _)) rest)
      | false =>
        -- Nothing is heard any more, and the sleep goes on to the deadline too.
        have gone : watch.see.connected = false := there
        have out := sleep_of_gone timerFirst rfl gone inside more
        rw [(apply_of_gone gone timed.change).1, out]
        exact Stops.ends (.deaf made rfl gone early)

def Idle (changes : List Timed) : Prop :=
  ∀ timed ∈ changes, timed.change = .send .none ∨ timed.change = .disconnect

theorem foldl_idle {watch : Watch} {changes : List Timed} (idle : Idle changes)
    (nothing : watch.request = .none) :
    ((changes.map Timed.change).foldl Watch.apply watch).request = .none := by
  induction changes generalizing watch with
  | nil => exact nothing
  | cons timed more ih =>
    refine ih (fun t member => idle t (List.mem_cons_of_mem timed member)) ?_
    rcases idle timed (by simp) with value | gone
    · rw [value, Watch.apply]
      split <;> simp [nothing]
    · rw [gone, Watch.apply]
      split <;> simp [nothing]

theorem connected_foldl (watch : Watch) (changes : List Change) :
    (changes.foldl Watch.apply watch).connected ↔
      watch.connected ∧ ∀ change ∈ changes, ∃ request, change = .send request := by
  induction changes generalizing watch with
  | nil => simp
  | cons change more ih =>
    have first : (watch.apply change).connected ↔
        watch.connected ∧ ∃ request, change = .send request := by
      cases there : watch.connected <;> cases change <;> simp [Watch.apply, there]
    rw [List.foldl_cons, ih, first, List.forall_mem_cons, and_assoc]

/-- Idle changes ask for nothing, and an interruption that has been seen stays old. -/
theorem idle_never {scene : Scene} (idle : Idle scene.pending)
    (calm : scene.watch.interrupted = false) (time : Nat) : ¬ NewlyAsks scene time := by
  have part (changes : List Timed) (inside : ∀ timed ∈ changes, timed ∈ scene.pending) :
      Idle (changes.filter fun timed => timed.time ≤ time) := by
    intro timed member
    exact idle timed (inside timed (List.mem_filter.mp member).1)
  rintro ⟨request, ⟨earlier, timed, later, split, here, value, there⟩ | ⟨_, unseen⟩⟩
  · have none : timed.change = .send .none :=
      (idle timed (by rw [split]; simp)).resolve_right value
    have due : dueBy time scene.pending =
        dueBy time earlier ++ .send .none :: dueBy time later := by
      simp [dueBy, split, here, none]
    obtain ⟨connected, sends⟩ := (connected_foldl _ _).mp there
    have heard : ((dueBy time earlier).foldl Watch.apply scene.watch).connected := by
      refine (connected_foldl _ _).mpr ⟨connected, fun change member => sends change ?_⟩
      exact (List.filter_sublist.map Timed.change).subset member
    have cleared : (((dueBy time earlier).foldl Watch.apply scene.watch).apply
        (.send .none)).request = .none := by
      rw [Watch.apply, heard]
      rfl
    have left := foldl_idle (part later fun t member => by rw [split]; simp [member]) cleared
    rw [Scene.changedBy, due, List.foldl_append, List.foldl_cons] at request
    rw [← dueBy, request] at left
    contradiction
  · have left := foldl_idle (part scene.pending fun _ member => member)
      (request_of_calm calm unseen)
    rw [← dueBy, ← Scene.changedBy, request] at left
    contradiction

theorem gone_never {scene : Scene} {gone time : Nat} (ordered : InOrder scene.pending)
    (begun : scene.now ≤ gone) (left : (scene.changedBy gone).connected = false)
    (behind : gone < time) : ¬ NewlyAsks scene time := by
  rintro ⟨_, ⟨earlier, timed, later, split, here, _, there⟩ | ⟨first, _⟩⟩
  · obtain ⟨connected, sends⟩ := (connected_foldl _ _).mp there
    obtain ⟨_, rest, _⟩ := List.pairwise_append.mp (split ▸ ordered)
    obtain ⟨least, _⟩ := List.pairwise_cons.mp rest
    have still : (scene.changedBy gone).connected := by
      refine (connected_foldl _ _).mpr ⟨connected, fun change member => ?_⟩
      obtain ⟨t, due, rfl⟩ := List.mem_map.mp member
      obtain ⟨inside, early⟩ := List.mem_filter.mp due
      simp only [decide_eq_true_eq] at early
      rw [split, List.mem_append, List.mem_cons] at inside
      rcases inside with before | rfl | after
      · exact sends t.change (List.mem_map_of_mem before)
      · omega
      · have bound := least t after
        omega
    rw [left] at still
    contradiction
  · omega

theorem Answers.elapsed_eq {deadline : Nat} {scene : Scene} {time : Nat}
    (answers : Answers deadline scene .elapsed time) : time = deadline := by
  cases answers
  rfl

theorem Answers.unique {deadline : Nat} {scene : Scene} {waking other : Waking} {time time' : Nat}
    (one : Answers deadline scene waking time) (two : Answers deadline scene other time') :
    waking = other ∧ time = time' := by
  cases one with
  | elapsed never =>
    cases two with
    | elapsed => exact ⟨rfl, rfl⟩
    | interrupted before asks first => exact absurd asks (never _ before)
  | interrupted before asks first =>
    cases two with
    | elapsed never => exact absurd asks (never _ before)
    | interrupted before' asks' first' =>
      have le : time ≤ time' := Nat.le_of_not_lt fun sooner => first _ sooner asks'
      have ge : time' ≤ time := Nat.le_of_not_lt fun sooner => first' _ sooner asks
      exact ⟨rfl, Nat.le_antisymm le ge⟩

theorem length_insertTimed (timed : Timed) (pending : List Timed) :
    (insertTimed timed pending).length = pending.length + 1 := by
  induction pending with
  | nil => rfl
  | cons first more ih =>
    rw [insertTimed]
    split
    · rfl
    · rw [List.length_cons, ih, List.length_cons]

theorem length_schedule (changes : List Timed) : (schedule changes).length = changes.length := by
  have grows (sorted : List Timed) :
      (changes.foldl (fun sorted timed => insertTimed timed sorted) sorted).length =
        sorted.length + changes.length := by
    induction changes generalizing sorted with
    | nil => rfl
    | cons timed more ih =>
      rw [List.foldl_cons, ih, length_insertTimed, List.length_cons]
      omega
  exact (grows []).trans (Nat.zero_add _)

theorem lt_pauseEnd (now : Nat) {length : Duration} (positive : 0 < length.total) :
    now < pauseEnd now length := by
  have some : 0 < min length.total thirtyYears := Nat.lt_min.mpr ⟨positive, by decide⟩
  have rounded := (pauseEnd_due now length).rounded.not_before
  omega

/-- A pause ends after a bounded number of steps, whichever they are, and always alike: with the first
    new interruption at its instant, or else when it is due. Values that ask for nothing leave the
    deadline as it is, and so does a controller that has gone without a last word. -/
theorem pause_terminates (length : Duration) (now : Nat) (watch : Watch) (changes : List Timed)
    (positive : 0 < length.total) (later : ∀ timed ∈ changes, now ≤ timed.time) :
    ∃ deadline, Due now length deadline ∧
      ((∀ timed ∈ changes, timed.time ≠ deadline) →
        let scene : Scene := ⟨now, watch, schedule changes⟩
        (∀ n left, Steps deadline n scene left → n ≤ 3 * changes.length + 2 ∧
          ((∃ behind, Goes deadline left behind) ∨
            ∃ waking time, Stops deadline left waking time)) ∧
        (∀ waking time, Ends deadline scene waking time ↔ Answers deadline scene waking time) ∧
        (∀ timerFirst, Answers deadline scene (pause length timerFirst scene).waking
          (pause length timerFirst scene).scene.now) ∧
        (Idle changes → watch.interrupted = false → Answers deadline scene .elapsed deadline) ∧
        (∀ gone, now ≤ gone → (scene.changedBy gone).connected = false →
          (∀ time, time ≤ gone → ¬ NewlyAsks scene time) →
            Answers deadline scene .elapsed deadline)) := by
  refine ⟨pauseEnd now length, pauseEnd_due now length, fun apart => ?_⟩
  intro scene
  have ordered : InOrder scene.pending := schedule_inOrder changes
  have waiting : Waiting (pauseEnd now length) scene := by
    refine ⟨ordered, ?_, le_pauseEnd now length, ?_, fun reached => ?_⟩
    · exact fun timed member => later timed ((mem_schedule changes timed).mp member)
    · exact fun timed member => apart timed ((mem_schedule changes timed).mp member)
    · exact absurd reached (Nat.ne_of_lt (lt_pauseEnd now positive))
  have sound (waking : Waking) (time : Nat) (ends : Ends (pauseEnd now length) scene waking time) :
      Answers (pauseEnd now length) scene waking time := by
    obtain ⟨_, _, steps, stops⟩ := ends
    exact steps.answers waiting stops
  have paused (timerFirst : Bool) :=
    sleep_ends (pauseEnd now length) timerFirst now watch scene.pending
  refine ⟨?_, ?_, ?_, ?_, ?_⟩
  · intro n left steps
    have bound := steps.le
    have most := stepsLeft_le scene
    rw [show scene.pending.length = changes.length from length_schedule changes] at most
    exact ⟨by omega, (steps.waiting waiting).goes_or_stops⟩
  · intro waking time
    refine ⟨sound waking time, fun answers => ?_⟩
    obtain ⟨rfl, rfl⟩ := answers.unique (sound _ _ (paused false))
    exact paused false
  · intro timerFirst
    exact sound _ _ (paused timerFirst)
  · intro idle calm
    have inside : Idle scene.pending := fun timed member =>
      idle timed ((mem_schedule changes timed).mp member)
    exact .elapsed fun time _ => idle_never inside calm time
  · intro gone begun left before
    refine .elapsed fun time _ => ?_
    rcases Nat.lt_or_ge gone time with behind | early
    · exact gone_never ordered begun left behind
    · exact before time early

/-- A controller that interrupts and goes away at one instant is heard at it, and one that goes away
    with nothing new to say is not, although its old interruption is still there. -/
theorem pause_terminates_last_word :
    let length : Duration := ⟨0, 10, by decide⟩
    let watch : Watch := ⟨.interrupt, false, true⟩
    let changes : List Timed := [⟨12, .send .interrupt⟩, ⟨12, .disconnect⟩, ⟨7, .send .none⟩]
    let silent : List Timed := [⟨9, .disconnect⟩, ⟨11, .send .interrupt⟩]
    (0 < length.total ∧ ∀ timed ∈ changes ++ silent, 5 ≤ timed.time) ∧
    ∃ deadline, Due 5 length deadline ∧ (∀ timed ∈ changes ++ silent, timed.time ≠ deadline) ∧
      Answers deadline ⟨5, watch, schedule changes⟩ .interrupted 12 ∧
      Answers deadline ⟨5, watch, schedule silent⟩ .elapsed 1000000 := by
  intro length watch changes silent
  have positive : 0 < length.total := by decide
  have later : ∀ timed ∈ changes ++ silent, 5 ≤ timed.time := by decide
  obtain ⟨deadline, due, heard⟩ := pause_terminates length 5 watch changes positive
    (fun timed member => later timed (List.mem_append_left _ member))
  obtain ⟨other, due', slept⟩ := pause_terminates length 5 watch silent positive
    (fun timed member => later timed (List.mem_append_right _ member))
  obtain rfl := due.unique due'
  have ends : deadline = 1000000 := by
    refine due.rounded.unique ⟨?_, ?_, ?_⟩ <;> decide
  have apart : ∀ timed ∈ changes ++ silent, timed.time ≠ deadline := by
    rw [ends]
    decide
  have first : (pause length false ⟨5, watch, schedule changes⟩).waking = .interrupted ∧
      (pause length false ⟨5, watch, schedule changes⟩).scene.now = 12 := by decide +kernel
  have second : (pause length false ⟨5, watch, schedule silent⟩).waking = .elapsed ∧
      (pause length false ⟨5, watch, schedule silent⟩).scene.now = 1000000 := by decide +kernel
  obtain ⟨_, _, heard, _⟩ :=
    heard fun timed member => apart timed (List.mem_append_left _ member)
  obtain ⟨_, _, slept, _⟩ :=
    slept fun timed member => apart timed (List.mem_append_right _ member)
  have heard := heard false
  have slept := slept false
  rw [first.1, first.2] at heard
  rw [second.1, second.2] at slept
  exact ⟨⟨positive, later⟩, deadline, due, apart, heard, slept⟩

/-- A pause of more than thirty years is over before its time. -/
theorem pause_terminates_early :
    let length : Duration := ⟨946080000, 1000000, by decide⟩
    let scene : Scene := ⟨0, .initial .none, []⟩
    let paused := pause length false scene
    ¬ Answers (scene.now + length.total) scene paused.waking paused.scene.now := by
  intro length scene paused answers
  have slept : paused.waking = .elapsed := by decide +kernel
  have short : paused.scene.now < scene.now + length.total := by decide +kernel
  rw [slept] at answers
  exact Nat.ne_of_lt short answers.elapsed_eq

end TickReplay.Feed
