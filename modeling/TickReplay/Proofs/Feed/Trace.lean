import TickReplay.Feed.Session

/- What a trace shows: the calls that reach the channel and the log lines of the feed. A pause and a
   change of the watch show nothing but the lines of signals. -/
namespace TickReplay.Feed

inductive Act where
  | send (payload : String)
  | refuse
  | close
  deriving DecidableEq, Repr

def Happening.act? : Happening → Option Act
  | .sent payload _ => some (.send payload)
  | .refused _ => some .refuse
  | .closed _ => some .close
  | .logged _ => none

def acts (trace : List Happening) : List Act := trace.filterMap Happening.act?

def isSignalLine (entry : Log.Entry) : Bool := entry.event == "signal.received"

def feedLines (trace : List Happening) : List Log.Entry :=
  (entries trace).filter fun entry => !isSignalLine entry

def Quiet (trace : List Happening) : Prop :=
  ∀ happening ∈ trace, ∃ signal, happening = .logged (signalReceived signal)

@[simp]
theorem acts_append (front back : List Happening) : acts (front ++ back) = acts front ++ acts back :=
  List.filterMap_append

@[simp]
theorem entries_append (front back : List Happening) :
    entries (front ++ back) = entries front ++ entries back :=
  List.filterMap_append

@[simp]
theorem feedLines_append (front back : List Happening) :
    feedLines (front ++ back) = feedLines front ++ feedLines back := by
  simp [feedLines]

@[simp]
theorem acts_logged (lines : List Log.Entry) : acts (lines.map .logged) = [] := by
  simp [acts, Happening.act?]

@[simp]
theorem entries_logged (lines : List Log.Entry) : entries (lines.map .logged) = lines := by
  induction lines with
  | nil => rfl
  | cons line lines ih => exact congrArg (line :: ·) ih

theorem isSignalLine_signalReceived (signal : Signal) : isSignalLine (signalReceived signal) := by
  simp [isSignalLine, signalReceived]

theorem quiet_nil : Quiet [] := by
  intro happening member
  contradiction

theorem quiet_append {front back : List Happening} (first : Quiet front) (second : Quiet back) :
    Quiet (front ++ back) := by
  intro happening member
  rcases List.mem_append.mp member with inFront | inBack
  · exact first happening inFront
  · exact second happening inBack

theorem quiet_acts {trace : List Happening} (quiet : Quiet trace) : acts trace = [] := by
  apply List.filterMap_eq_nil_iff.mpr
  intro happening member
  obtain ⟨signal, rfl⟩ := quiet happening member
  rfl

theorem quiet_feedLines {trace : List Happening} (quiet : Quiet trace) : feedLines trace = [] := by
  apply List.filter_eq_nil_iff.mpr
  intro entry member
  obtain ⟨happening, inTrace, line⟩ := List.mem_filterMap.mp member
  obtain ⟨signal, rfl⟩ := quiet happening inTrace
  cases Option.some.inj line
  simp [isSignalLine_signalReceived]

theorem quiet_entries (watch : Watch) (change : Change) :
    Quiet ((watch.entries change).map .logged) := by
  intro happening member
  cases change with
  | signal signal =>
    simp only [Watch.entries] at member
    split at member
    · exact ⟨signal, List.mem_singleton.mp member⟩
    · contradiction
  | send request => contradiction
  | disconnect => contradiction

theorem quiet_applyAll (watch : Watch) (changes : List Change) :
    Quiet ((watch.applyAll changes).2.map .logged) := by
  induction changes generalizing watch with
  | nil => exact quiet_nil
  | cons change more ih =>
    simp only [Watch.applyAll, List.map_append]
    exact quiet_append (quiet_entries watch change) (ih (watch.apply change))

theorem quiet_sleep (deadline : Nat) (timerFirst : Bool) (now : Nat) (watch : Watch)
    (pending : List Timed) : Quiet (sleep deadline timerFirst now watch pending).trace := by
  induction pending generalizing now watch with
  | nil =>
    simp only [sleep]
    split <;> exact quiet_nil
  | cons timed more ih =>
    have made := quiet_entries watch timed.change
    have seen := quiet_entries watch.see timed.change
    simp only [sleep]
    split
    · exact quiet_append made (ih now (watch.apply timed.change))
    · split
      · exact quiet_nil
      · split
        · exact quiet_nil
        · exact quiet_append seen (ih timed.time (watch.see.apply timed.change))

theorem quiet_pause (length : Duration) (timerFirst : Bool) (scene : Scene) :
    Quiet (pause length timerFirst scene).trace :=
  quiet_sleep _ _ _ _ _

theorem sendTick_acts (conditions : Conditions) (total index : Nat) (tick : Tick) (scene : Scene) :
    acts (sendTick conditions total index tick scene).2 = [.send tick.wire] := by
  simp only [sendTick, List.cons_append]
  simp [acts, Happening.act?]

theorem sendTick_feedLines (conditions : Conditions) (total index : Nat) (tick : Tick)
    (scene : Scene) : feedLines (sendTick conditions total index tick scene).2 =
      [tickPublished index total tick.wire] := by
  have quiet := quiet_feedLines (quiet_applyAll scene.watch (conditions.changesIn index))
  have front : feedLines [.sent tick.wire scene.now] = [] := rfl
  have back : feedLines [.logged (tickPublished index total tick.wire)] =
      [tickPublished index total tick.wire] := by
    simp [feedLines, entries, isSignalLine, tickPublished]
  simp only [sendTick]
  rw [← List.singleton_append, feedLines_append, feedLines_append, front, quiet, back]
  rfl

end TickReplay.Feed
