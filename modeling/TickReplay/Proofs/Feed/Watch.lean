import TickReplay.Feed.Broadcast

/- The watch over time. The changes of one instant are made together, and a change asks for an
   interruption at the instant of the change only. A feed that has looked at the watch may have lost
   the mark of a change, but only of one that asked for nothing. -/
namespace TickReplay.Feed

theorem applyAll_fst (watch : Watch) (changes : List Change) :
    (watch.applyAll changes).1 = changes.foldl Watch.apply watch := by
  induction changes generalizing watch with
  | nil => rfl
  | cons change more ih => exact ih (watch.apply change)

def Watch.over (watch : Watch) (changes : Nat → List Change) : Nat → Watch
  | 0 => (changes 0).foldl Watch.apply watch
  | k + 1 => (changes (k + 1)).foldl Watch.apply (watch.over changes k).see

theorem over_congr (watch : Watch) {changes others : Nat → List Change} {k : Nat}
    (same : ∀ i, i ≤ k → changes i = others i) : watch.over changes k = watch.over others k := by
  induction k with
  | zero => simp only [Watch.over, same 0 (Nat.le_refl 0)]
  | succ k ih =>
    have before := ih fun i bound => same i (Nat.le_succ_of_le bound)
    simp only [Watch.over, before, same (k + 1) (Nat.le_refl _)]

theorem over_add (watch : Watch) (changes : Nat → List Change) (k j : Nat) :
    watch.over changes (k + 1 + j) =
      (watch.over changes k).see.over (fun i => changes (k + 1 + i)) j := by
  induction j with
  | zero => rfl
  | succ j ih =>
    have next : k + 1 + (j + 1) = k + 1 + j + 1 := rfl
    rw [next, Watch.over, Watch.over, ih]
    rfl

theorem over_first (watch : Watch) (first : List Change) {changes others : Nat → List Change}
    (here : changes 0 = first ++ others 0) (later : ∀ i, changes (i + 1) = others (i + 1)) (k : Nat) :
    watch.over changes k = (first.foldl Watch.apply watch).over others k := by
  induction k with
  | zero => simp only [Watch.over, here, List.foldl_append]
  | succ k ih => simp only [Watch.over, ih, later]

theorem over_split (watch : Watch) {changes first others : Nat → List Change} {k : Nat}
    (below : ∀ i, i < k → changes i = first i) (here : changes k = first k ++ others 0)
    (later : ∀ i, changes (k + (i + 1)) = others (i + 1)) (j : Nat) :
    watch.over changes (k + j) = (watch.over first k).over others j := by
  cases k with
  | zero =>
    have shift : ∀ i, changes (i + 1) = others (i + 1) := by simpa using later
    rw [Nat.zero_add]
    exact over_first watch (first 0) here shift j
  | succ k =>
    have before := over_congr watch fun i bound => below i (Nat.lt_succ_of_le bound)
    rw [over_add, before, Watch.over]
    exact over_first _ (first (k + 1)) here later j

theorem over_idle (watch : Watch) {changes : Nat → List Change} {k : Nat}
    (idle : ∀ i, i ≤ k + 1 → changes i = []) : watch.over changes (k + 1) = watch.see := by
  induction k with
  | zero =>
    simp [Watch.over, idle 0 (by omega), idle 1 (by omega)]
  | succ k ih =>
    rw [Watch.over, ih fun i bound => idle i (Nat.le_succ_of_le bound), idle (k + 2) (Nat.le_refl _)]
    rfl

theorem over_idle_see (watch : Watch) {changes : Nat → List Change} {k : Nat}
    (idle : ∀ i, i ≤ k → changes i = []) : (watch.over changes k).see = watch.see := by
  cases k with
  | zero => simp [Watch.over, idle 0 (Nat.le_refl 0)]
  | succ k =>
    rw [over_idle watch idle]
    rfl

theorem over_idle_interrupted (watch : Watch) {changes : Nat → List Change} {k : Nat}
    (idle : ∀ i, i ≤ k → changes i = []) (calm : watch.interrupted = false) :
    (watch.over changes k).interrupted = false := by
  cases k with
  | zero => simpa [Watch.over, idle 0 (Nat.le_refl 0)] using calm
  | succ k =>
    rw [over_idle watch idle]
    rfl

theorem interrupted_of_none {watch : Watch} (none : watch.request = .none) :
    watch.interrupted = false := by
  have noRequest : (Request.none == Request.interrupt) = false := by decide
  rw [Watch.interrupted, none, noRequest, Bool.and_false]

/-- Two watches that a feed cannot tell apart by the interruptions they ask for. -/
structure Agrees (watch other : Watch) : Prop where
  see_eq : watch.see = other.see
  unseen_eq : watch.unseen = other.unseen ∨ watch.request = .none

theorem Agrees.rfl {watch : Watch} : Agrees watch watch := ⟨Eq.refl _, .inl (Eq.refl _)⟩

theorem Agrees.request_eq {watch other : Watch} (agrees : Agrees watch other) :
    watch.request = other.request := by
  have same := congrArg Watch.request agrees.see_eq
  exact same

theorem Agrees.connected_eq {watch other : Watch} (agrees : Agrees watch other) :
    watch.connected = other.connected := by
  have same := congrArg Watch.connected agrees.see_eq
  exact same

theorem Agrees.see {watch other : Watch} (agrees : Agrees watch other) :
    Agrees watch.see other.see :=
  ⟨agrees.see_eq, .inl (Eq.refl false)⟩

theorem Agrees.interrupted_eq {watch other : Watch} (agrees : Agrees watch other) :
    watch.interrupted = other.interrupted := by
  have request := agrees.request_eq
  rcases agrees.unseen_eq with same | none
  · rw [Watch.interrupted, Watch.interrupted, same, request]
  · rw [interrupted_of_none none, interrupted_of_none (request.symm.trans none)]

theorem Agrees.apply {watch other : Watch} (agrees : Agrees watch other) (change : Change) :
    Agrees (watch.apply change) (other.apply change) := by
  have connected := agrees.connected_eq
  have request := agrees.request_eq
  simp only [Watch.apply, ← connected]
  split
  · exact agrees
  · cases change with
    | send asked => exact ⟨by simp [Watch.see, connected], .inl (Eq.refl true)⟩
    | disconnect => exact ⟨by simp [Watch.see, request], agrees.unseen_eq⟩
    | signal signal => exact ⟨Eq.refl _, .inl (Eq.refl true)⟩

theorem Agrees.foldl {watch other : Watch} (agrees : Agrees watch other) (changes : List Change) :
    Agrees (changes.foldl Watch.apply watch) (changes.foldl Watch.apply other) := by
  induction changes generalizing watch other with
  | nil => exact agrees
  | cons change more ih => exact ih (agrees.apply change)

theorem Agrees.over {watch other : Watch} (agrees : Agrees watch other)
    (changes : Nat → List Change) (k : Nat) :
    Agrees (watch.over changes k) (other.over changes k) := by
  induction k with
  | zero => exact agrees.foldl (changes 0)
  | succ k ih => exact ih.see.foldl (changes (k + 1))

theorem Agrees.trans {first second third : Watch} (left : Agrees first second)
    (right : Agrees second third) : Agrees first third := by
  refine ⟨left.see_eq.trans right.see_eq, ?_⟩
  rcases left.unseen_eq with same | none
  · rcases right.unseen_eq with same' | none
    · exact .inl (same.trans same')
    · exact .inr (left.request_eq.trans none)
  · exact .inr none

/-- A look loses no request, and no mark that matters, where no interruption is asked for. -/
theorem agrees_see {watch : Watch} (calm : watch.interrupted = false) : Agrees watch.see watch := by
  refine ⟨Eq.refl _, ?_⟩
  cases mark : watch.unseen with
  | false => exact .inl (Eq.refl _)
  | true =>
    refine .inr ?_
    simp only [Watch.interrupted, mark, Bool.true_and] at calm
    change watch.request = .none
    cases request : watch.request with
    | none => exact Eq.refl _
    | interrupt =>
      rw [request] at calm
      contradiction

end TickReplay.Feed
