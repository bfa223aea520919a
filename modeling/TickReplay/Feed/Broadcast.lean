import TickReplay.Feed.Pause
import TickReplay.Tick.Basic

/- Publishing ticks in order, one send each and a pause between sends. The watch is looked at before
   every send; sends take no time and a failed one is not repeated. A replay puts a warm-up pause in
   front, in which subscribers connect, and closes the channel once, whatever happened before. -/
namespace TickReplay.Feed

/-- What the surroundings do: changes made inside the n-th send, the send that fails, how each tie
    of a pause goes, counted by the sends before it, and what closing the channel logs. -/
structure Conditions where
  onSend : List (Nat × Change) := []
  failOn : Option Nat := none
  timerFirst : Nat → Bool := fun _ => false
  closing : List Log.Entry := []

inductive Ending where
  | completed (sent : Nat)
  | interrupted (sent : Nat)
  | refused (sent : Nat)
  deriving DecidableEq, Repr

def Ending.sent : Ending → Nat
  | .completed sent => sent
  | .interrupted sent => sent
  | .refused sent => sent

structure Played where
  ending : Ending
  scene : Scene
  trace : List Happening
  deriving Repr

def Played.after (trace : List Happening) (played : Played) : Played :=
  { played with trace := trace ++ played.trace }

def tickPublished (index total : Nat) (payload : String) : Log.Entry :=
  ⟨.info, "dispatch.sent", "Tick published",
    .object [("index", Json.ofNat index), ("total", Json.ofNat total), ("payload", .text payload)]⟩

def Watch.applyAll (watch : Watch) : List Change → Watch × List Log.Entry
  | [] => (watch, [])
  | change :: more =>
    let (last, entries) := (watch.apply change).applyAll more
    (last, watch.entries change ++ entries)

def Conditions.changesIn (conditions : Conditions) (send : Nat) : List Change :=
  (conditions.onSend.filter fun c => c.1 == send).map Prod.snd

def sendTick (conditions : Conditions) (total index : Nat) (tick : Tick) (scene : Scene) :
    Scene × List Happening :=
  let (watch, entries) := scene.watch.applyAll (conditions.changesIn index)
  ({ scene with watch },
    .sent tick.wire scene.now :: entries.map .logged ++
      [.logged (tickPublished index total tick.wire)])

def broadcastFrom (conditions : Conditions) (delay : Duration) (total sent : Nat) (scene : Scene) :
    List Tick → Played
  | [] => ⟨.completed sent, scene, []⟩
  | tick :: more =>
    let scene := { scene with watch := scene.watch.see }
    if scene.watch.request = .interrupt then ⟨.interrupted sent, scene, []⟩
    else if conditions.failOn = some (sent + 1) then ⟨.refused sent, scene, [.refused scene.now]⟩
    else
      let (scene, trace) := sendTick conditions total (sent + 1) tick scene
      if more.isEmpty then ⟨.completed (sent + 1), scene, trace⟩
      else
        let paused := pause delay (conditions.timerFirst (sent + 1)) scene
        match paused.waking with
        | .interrupted => ⟨.interrupted (sent + 1), paused.scene, trace ++ paused.trace⟩
        | .elapsed =>
          (broadcastFrom conditions delay total (sent + 1) paused.scene more).after
            (trace ++ paused.trace)

def broadcast (conditions : Conditions) (delay : Duration) (ticks : List Tick) (scene : Scene) :
    Played :=
  broadcastFrom conditions delay ticks.length 0 scene ticks

/- The logged warm-up is one 64-bit word. -/
def warmingUp (warmup : Duration) : Log.Entry :=
  ⟨.info, "feeder.warmup", "Waiting for subscribers to connect",
    .object [("warmup_ms", Json.ofNat (warmup.millis % word64))]⟩

def Played.close (closing : List Log.Entry) (played : Played) : Played :=
  { played with
    trace := played.trace ++ .closed played.scene.now :: closing.map .logged }

def warmAndBroadcast (conditions : Conditions) (warmup delay : Duration) (ticks : List Tick)
    (scene : Scene) : Played :=
  let paused := pause warmup (conditions.timerFirst 0) scene
  match paused.waking with
  | .interrupted => ⟨.interrupted 0, paused.scene, paused.trace⟩
  | .elapsed => (broadcast conditions delay ticks paused.scene).after paused.trace

def replay (conditions : Conditions) (warmup delay : Duration) (ticks : List Tick) (scene : Scene) :
    Played :=
  ((warmAndBroadcast conditions warmup delay ticks scene).close conditions.closing).after
    [.logged (warmingUp warmup)]

end TickReplay.Feed
