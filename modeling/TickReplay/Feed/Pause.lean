import TickReplay.Duration
import TickReplay.Feed.Shutdown

/- Pauses that an interruption cuts short. Time passes only here. When a pause ends at an instant at
   which a change is also to be seen, either may win; `timerFirst` decides it. The timer counts whole
   milliseconds and is never early. No pause takes longer than thirty years. -/
namespace TickReplay.Feed

inductive Happening where
  | sent (payload : String) (time : Nat)
  | refused (time : Nat)
  | closed (time : Nat)
  | logged (entry : Log.Entry)
  deriving Repr

structure Scene where
  now : Nat
  watch : Watch
  pending : List Timed
  deriving DecidableEq, Repr

inductive Waking where
  | elapsed
  | interrupted
  deriving DecidableEq, Repr

structure Paused where
  waking : Waking
  scene : Scene
  trace : List Happening
  deriving Repr

def Paused.after (entries : List Log.Entry) (paused : Paused) : Paused :=
  { paused with trace := entries.map .logged ++ paused.trace }

def wakes (deadline : Nat) (timerFirst : Bool) (now : Nat) (watch : Watch) :
    Option (Waking × Watch) :=
  if deadline ≤ now && timerFirst then some (.elapsed, watch)
  else if watch.interrupted then some (.interrupted, watch.see)
  else if deadline ≤ now then some (.elapsed, watch.see)
  else none

/-- Changes of one instant are all made before anyone looks. -/
def sleep (deadline : Nat) (timerFirst : Bool) (now : Nat) (watch : Watch) : List Timed → Paused
  | [] =>
    match wakes deadline timerFirst now watch with
    | some (waking, watch) => ⟨waking, ⟨now, watch, []⟩, []⟩
    | none => ⟨.elapsed, ⟨deadline, watch.see, []⟩, []⟩
  | timed :: more =>
    if timed.time ≤ now then
      (sleep deadline timerFirst now (watch.apply timed.change) more).after
        (watch.entries timed.change)
    else
      match wakes deadline timerFirst now watch with
      | some (waking, watch) => ⟨waking, ⟨now, watch, timed :: more⟩, []⟩
      | none =>
        let watch := watch.see
        if deadline < timed.time then ⟨.elapsed, ⟨deadline, watch, timed :: more⟩, []⟩
        else
          (sleep deadline timerFirst timed.time (watch.apply timed.change) more).after
            (watch.entries timed.change)

def longestPause : Nat := 30 * 365 * 24 * 60 * 60 * 1000000000

/-- The first whole millisecond that is not before an instant. -/
def timerTick (instant : Nat) : Nat := (instant + 999999) / 1000000 * 1000000

def pauseEnd (now : Nat) (length : Duration) : Nat :=
  timerTick (now + min length.total longestPause)

def pause (length : Duration) (timerFirst : Bool) (scene : Scene) : Paused :=
  sleep (pauseEnd scene.now length) timerFirst scene.now scene.watch scene.pending

end TickReplay.Feed
