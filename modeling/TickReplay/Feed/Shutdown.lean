import TickReplay.Log

/- The shutdown watch: a value that a controller changes and a feed looks at. A change is unseen
   until it is looked at, and nothing can change any more once the controller is gone. -/
namespace TickReplay.Feed

inductive Request where
  | none
  | interrupt
  deriving DecidableEq, Repr

inductive Signal where
  | interrupt
  | terminate
  deriving DecidableEq, Repr

def Signal.name : Signal → String
  | .interrupt => "SIGINT"
  | .terminate => "SIGTERM"

structure Watch where
  request : Request
  unseen : Bool
  connected : Bool
  deriving DecidableEq, Repr

def Watch.initial (request : Request) : Watch := ⟨request, false, true⟩

/-- A signal asks for an interruption and then ends the control. -/
inductive Change where
  | send (request : Request)
  | disconnect
  | signal (signal : Signal)
  deriving DecidableEq, Repr

def Watch.apply (watch : Watch) (change : Change) : Watch :=
  if !watch.connected then watch
  else match change with
    | .send request => { watch with request, unseen := true }
    | .disconnect => { watch with connected := false }
    | .signal _ => { request := .interrupt, unseen := true, connected := false }

def Watch.see (watch : Watch) : Watch := { watch with unseen := false }

def Watch.interrupted (watch : Watch) : Bool := watch.unseen && watch.request == .interrupt

def signalReceived (signal : Signal) : Log.Entry :=
  ⟨.warn, "signal.received", "Interruption received, stopping replay",
    .object [("signal", .text signal.name)]⟩

def Watch.entries (watch : Watch) : Change → List Log.Entry
  | .signal signal => if watch.connected then [signalReceived signal] else []
  | _ => []

structure Timed where
  time : Nat
  change : Change
  deriving DecidableEq, Repr

def insertTimed (timed : Timed) : List Timed → List Timed
  | [] => [timed]
  | t :: more => if timed.time < t.time then timed :: t :: more else t :: insertTimed timed more

/-- Changes of one instant keep their order. -/
def schedule (changes : List Timed) : List Timed :=
  changes.foldl (fun sorted timed => insertTimed timed sorted) []

end TickReplay.Feed
