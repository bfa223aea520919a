import TickReplay.Endpoint
import TickReplay.Feed.Broadcast
import TickReplay.Settings

/- A whole session: check the source, load it, open the socket, replay, report. Everything that can
   be wrong with the settings or the file is found before the socket is opened. -/
namespace TickReplay.Feed

structure Summary where
  loaded : Nat
  sent : Nat
  interrupted : Bool
  deriving DecidableEq, Repr

inductive SessionError where
  | settings (cause : SettingsError)
  | load (path : String) (cause : Tick.LoadError)
  | bind (endpoint : String) (cause : SocketError)
  | refused
  deriving DecidableEq, Repr

def refusedMessage : String := "broadcast socket rejected message"

def SessionError.message : SessionError → String
  | .settings cause => cause.message
  | .load path cause => s!"failed to load ticks from {path}: {cause.message}"
  | .bind endpoint cause => s!"failed to bind broadcast socket at {endpoint}: {cause.message}"
  | .refused => refusedMessage

def configError (path : String) : Log.Entry :=
  ⟨.error, "feeder.config_error", "Refusing to start without a tick file",
    .object [("path", .text path)]⟩

def ticksLoaded (count : Nat) (path : String) : Log.Entry :=
  ⟨.info, "feeder.loaded", "Loaded ticks",
    .object [("count", Json.ofNat count), ("path", .text path)]⟩

def socketBound (endpoint : String) : Log.Entry :=
  ⟨.info, "publisher.bind", "PUB socket bound, waiting for subscribers to connect",
    .object [("endpoint", .text endpoint)]⟩

def socketClosed (endpoint : String) : Log.Entry :=
  ⟨.info, "publisher.closed", "Broadcast socket closed", .object [("endpoint", .text endpoint)]⟩

def allSent (sent : Nat) : Log.Entry :=
  ⟨.info, "feeder.complete", "All ticks sent", .object [("sent", Json.ofNat sent)]⟩

def replayInterrupted (sent total : Nat) : Log.Entry :=
  ⟨.warn, "feeder.interrupted", "Replay interrupted by user",
    .object [("sent", Json.ofNat sent), ("total", Json.ofNat total)]⟩

structure Report where
  result : Except SessionError Summary
  trace : List Happening

def Report.after (entries : List Log.Entry) (report : Report) : Report :=
  { report with trace := entries.map .logged ++ report.trace }

def Played.report (loaded : Nat) (played : Played) : Report :=
  match played.ending with
  | .completed sent => ⟨.ok ⟨loaded, sent, false⟩, played.trace ++ [.logged (allSent sent)]⟩
  | .interrupted sent =>
    ⟨.ok ⟨loaded, sent, true⟩, played.trace ++ [.logged (replayInterrupted sent loaded)]⟩
  | .refused _ => ⟨.error .refused, played.trace⟩

/-- A session whose watch and schedule are given. `bind` opens the socket and answers the endpoint
    that is in force. -/
def sessionFrom (find : Lookup) (bind : String → Except SocketError String)
    (conditions : Conditions) (scene : Scene) (settings : Settings) : Report :=
  let path := settings.source
  match settings.validate find with
  | .error cause => ⟨.error (.settings cause), [.logged (configError path)]⟩
  | .ok _ =>
    match Tick.load find path with
    | .error cause => ⟨.error (.load path cause), []⟩
    | .ok ticks =>
      let loaded := ticksLoaded ticks.length path
      match bind settings.endpoint with
      | .error cause => ⟨.error (.bind settings.endpoint cause), [.logged loaded]⟩
      | .ok endpoint =>
        let conditions := { conditions with closing := [socketClosed endpoint] }
        ((replay conditions settings.warmup settings.delay ticks scene).report ticks.length).after
          [loaded, socketBound endpoint]

/-- A session that only signals interrupt. -/
def session (find : Lookup) (bind : String → Except SocketError String) (conditions : Conditions)
    (changes : List Timed) (settings : Settings) : Report :=
  sessionFrom find bind conditions ⟨0, Watch.initial .none, schedule changes⟩ settings

def entries (trace : List Happening) : List Log.Entry :=
  trace.filterMap fun
    | .logged entry => some entry
    | _ => none

end TickReplay.Feed
