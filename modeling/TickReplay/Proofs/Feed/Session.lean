import Mathlib.Control.Monad.Basic
import TickReplay.Proofs.Feed.Signals
import TickReplay.Proofs.Tick.File

/- The life of a session. It ends with refused settings, with a file that does not load, with a socket
   that does not open, or with a replay whose socket is closed once; the log, the socket and the
   summary then tell the same numbers. -/
namespace TickReplay.Feed

/-- The last line of a session whose socket was opened; there is none behind a refused send. -/
def Ending.verdict (total : Nat) : Ending → List Log.Entry
  | .completed sent =>
    [⟨.info, "feeder.complete", "All ticks sent", .object [("sent", .number (.integer sent))]⟩]
  | .interrupted sent =>
    [⟨.warn, "feeder.interrupted", "Replay interrupted by user",
      .object [("sent", .number (.integer sent)), ("total", .number (.integer total))]⟩]
  | .refused _ => []

def Ending.result (total : Nat) : Ending → Except SessionError Summary
  | .completed sent => .ok ⟨total, sent, false⟩
  | .interrupted sent => .ok ⟨total, sent, true⟩
  | .refused _ => .error .refused

def refusedLine (path : String) : Log.Entry :=
  ⟨.error, "feeder.config_error", "Refusing to start without a tick file",
    .object [("path", .text path)]⟩

def loadedLine (count : Nat) (path : String) : Log.Entry :=
  ⟨.info, "feeder.loaded", "Loaded ticks",
    .object [("count", .number (.integer count)), ("path", .text path)]⟩

def closedLine (endpoint : String) : Log.Entry :=
  ⟨.info, "publisher.closed", "Broadcast socket closed", .object [("endpoint", .text endpoint)]⟩

def openingLines (settings : Settings) (endpoint : String) (ticks : List Tick) : List Log.Entry :=
  [loadedLine ticks.length settings.source,
    ⟨.info, "publisher.bind", "PUB socket bound, waiting for subscribers to connect",
      .object [("endpoint", .text endpoint)]⟩,
    ⟨.info, "feeder.warmup", "Waiting for subscribers to connect",
      .object [("warmup_ms", .number (.integer ((settings.warmup.seconds * 1000 +
        settings.warmup.nanos / 1000000) % 18446744073709551616 : Nat)))]⟩]

def sendLines (ticks : List Tick) (sent : Nat) : List Log.Entry :=
  (ticks.take sent).mapIdx fun i tick => sentLine (i + 1) ticks.length tick.wire

def linesOn (stream : Log.Stream) (trace : List Happening) : List Log.Entry :=
  (entries trace).filter fun entry => entry.level.stream == stream

structure Replayed (settings : Settings) (endpoint : String) (failOn : Option Nat)
    (ticks : List Tick) (ending : Ending) (report : Report) : Prop where
  acts_eq : acts report.trace =
    (ticks.take ending.sent).map (fun tick => .send tick.wire) ++ ending.refusal ++ [.close]
  lines_eq : feedLines report.trace = openingLines settings endpoint ticks ++
    sendLines ticks ending.sent ++ [closedLine endpoint] ++ ending.verdict ticks.length
  result_eq : report.result = ending.result ticks.length
  sent_le : ending.sent ≤ ticks.length
  completed : ∀ k, ending = .completed k → k = ticks.length
  interrupted : ∀ k, ending = .interrupted k → k < ticks.length ∨ ticks = []
  refused : ∀ k, ending = .refused k → k < ticks.length ∧ failOn = some (k + 1)

def Lifecycle (find : Lookup) (bind : String → Except SocketError String) (failOn : Option Nat)
    (settings : Settings) (report : Report) : Prop :=
  match settings.validate find, Tick.load find settings.source, bind settings.endpoint with
  | .error cause, _, _ =>
    cause = .sourceNotFound settings.source ∧ report.result = .error (.settings cause) ∧
      report.trace = [.logged (refusedLine settings.source)] ∧
      linesOn .output report.trace = [] ∧
      linesOn .errors report.trace = [refusedLine settings.source]
  | .ok _, .error cause, _ =>
    report.result = .error (.load settings.source cause) ∧ report.trace = []
  | .ok _, .ok ticks, .error cause =>
    report.result = .error (.bind settings.endpoint cause) ∧
      report.trace = [.logged (loadedLine ticks.length settings.source)]
  | .ok _, .ok ticks, .ok endpoint =>
    ∃ ending, Replayed settings endpoint failOn ticks ending report

theorem report_eq (total : Nat) (played : Played) :
    played.report total = ⟨played.ending.result total,
      played.trace ++ (played.ending.verdict total).map .logged⟩ := by
  cases ending : played.ending <;>
    simp [Played.report, ending, Ending.result, Ending.verdict, allSent, replayInterrupted, Json.ofNat]

theorem feedLines_logged {lines : List Log.Entry} (own : ∀ line ∈ lines, isSignalLine line = false) :
    feedLines (lines.map .logged) = lines := by
  rw [feedLines, entries_logged, List.filter_eq_self]
  intro line member
  simp [own line member]

theorem verdict_own (total : Nat) (ending : Ending) :
    ∀ line ∈ ending.verdict total, isSignalLine line = false := by
  cases ending <;> simp [Ending.verdict, isSignalLine]

theorem opening_own (settings : Settings) (endpoint : String) (ticks : List Tick) :
    ∀ line ∈ openingLines settings endpoint ticks, isSignalLine line = false := by
  simp [openingLines, loadedLine, isSignalLine]

def openRun (settings : Settings) (endpoint : String) (conditions : Conditions) (scene : Scene)
    (ticks : List Tick) : Played :=
  warmAndBroadcast { conditions with closing := [socketClosed endpoint] } settings.warmup
    settings.delay ticks scene

def openReport (settings : Settings) (endpoint : String) (conditions : Conditions) (scene : Scene)
    (ticks : List Tick) : Report :=
  ((replay { conditions with closing := [socketClosed endpoint] } settings.warmup settings.delay
    ticks scene).report ticks.length).after
      [ticksLoaded ticks.length settings.source, socketBound endpoint]

theorem openReport_eq (settings : Settings) (endpoint : String) (conditions : Conditions)
    (scene : Scene) (ticks : List Tick) :
    let played := openRun settings endpoint conditions scene ticks
    openReport settings endpoint conditions scene ticks =
      ⟨played.ending.result ticks.length,
        (openingLines settings endpoint ticks).map .logged ++ (played.trace ++
          (.closed played.scene.now ::
            (closedLine endpoint :: played.ending.verdict ticks.length).map .logged))⟩ := by
  intro played
  have opening : openingLines settings endpoint ticks =
      [ticksLoaded ticks.length settings.source, socketBound endpoint,
        warmingUp settings.warmup] := rfl
  have closed : closedLine endpoint = socketClosed endpoint := rfl
  have replayed : (replay { conditions with closing := [socketClosed endpoint] } settings.warmup
      settings.delay ticks scene).trace = .logged (warmingUp settings.warmup) ::
        (played.trace ++ [.closed played.scene.now, .logged (socketClosed endpoint)]) := rfl
  have ending : (replay { conditions with closing := [socketClosed endpoint] } settings.warmup
      settings.delay ticks scene).ending = played.ending := rfl
  simp only [openReport, report_eq, Report.after, replayed, ending, opening, closed]
  simp

theorem openRun_publication (settings : Settings) (endpoint : String) (conditions : Conditions)
    (scene : Scene) (ticks : List Tick) :
    let played := openRun settings endpoint conditions scene ticks
    Publication conditions.failOn ticks.length 0 ticks played.ending played.trace ∧
      ∀ k, played.ending = .interrupted k → k < ticks.length ∨ ticks = [] :=
  warmAndBroadcast_publication { conditions with closing := [socketClosed endpoint] }
    settings.warmup settings.delay ticks scene

theorem feedLines_publication {failOn : Option Nat} {ticks : List Tick} {ending : Ending}
    {trace : List Happening} (run : Publication failOn ticks.length 0 ticks ending trace) :
    feedLines trace = sendLines ticks ending.sent := by
  rw [run.lines_eq]
  simp only [Nat.sub_zero, Nat.zero_add, sendLines]

theorem openReport_replayed (settings : Settings) (endpoint : String) (conditions : Conditions)
    (scene : Scene) (ticks : List Tick) :
    Replayed settings endpoint conditions.failOn ticks
      (openRun settings endpoint conditions scene ticks).ending
      (openReport settings endpoint conditions scene ticks) := by
  rw [openReport_eq]
  obtain ⟨run, interrupted⟩ := openRun_publication settings endpoint conditions scene ticks
  generalize openRun settings endpoint conditions scene ticks = played at run interrupted ⊢
  have published := published_of_publication run
  have front : feedLines ((openingLines settings endpoint ticks).map .logged) =
      openingLines settings endpoint ticks :=
    feedLines_logged (opening_own settings endpoint ticks)
  have back : feedLines ((closedLine endpoint :: played.ending.verdict ticks.length).map .logged) =
      closedLine endpoint :: played.ending.verdict ticks.length := feedLines_logged (by
    intro line member
    rcases List.mem_cons.mp member with rfl | member
    · simp [isSignalLine, closedLine]
    · exact verdict_own ticks.length played.ending line member)
  have sends := feedLines_publication run
  have silent : ∀ tail, feedLines (.closed played.scene.now :: tail) = feedLines tail :=
    fun _ => rfl
  constructor
  · rw [acts_append, acts_logged, acts_append, acts_closing, published.acts_eq]
    simp
  · rw [feedLines_append, feedLines_append, silent, front, back, sends]
    simp
  · rfl
  · exact published.sent_le
  · exact published.completed
  · exact interrupted
  · exact published.refused

theorem sessionFrom_lifecycle (find : Lookup) (bind : String → Except SocketError String)
    (conditions : Conditions) (scene : Scene) (settings : Settings) :
    Lifecycle find bind conditions.failOn settings
      (sessionFrom find bind conditions scene settings) := by
  simp only [Lifecycle, sessionFrom]
  cases valid : settings.validate find with
  | error cause =>
    refine ⟨?_, rfl, rfl, rfl, rfl⟩
    simp only [Settings.validate] at valid
    split at valid
    · contradiction
    · exact (Except.error.inj valid).symm
  | ok _ =>
    cases Tick.load find settings.source with
    | error cause => exact ⟨rfl, rfl⟩
    | ok ticks =>
      cases bind settings.endpoint with
      | error cause => exact ⟨rfl, rfl⟩
      | ok endpoint => exact ⟨_, openReport_replayed settings endpoint conditions scene ticks⟩

theorem Replayed.summary {settings : Settings} {endpoint : String} {failOn : Option Nat}
    {ticks : List Tick} {ending : Ending} {report : Report} {summary : Summary}
    (replayed : Replayed settings endpoint failOn ticks ending report)
    (result : report.result = .ok summary) :
    summary.loaded = ticks.length ∧ summary.sent = payloads report.trace ∧
      (summary.interrupted = false → summary.sent = summary.loaded) := by
  have sends : payloads report.trace = ending.sent := by
    have close : [Act.close].countP Act.isSend = 0 := rfl
    rw [payloads, replayed.acts_eq, List.countP_append, countP_calls ticks replayed.sent_le, close]
    rfl
  rw [replayed.result_eq] at result
  rw [sends]
  cases ended : ending with
  | refused k =>
    rw [ended] at result
    cases result
  | completed k =>
    rw [ended] at result
    cases result
    exact ⟨rfl, rfl, fun _ => replayed.completed k ended⟩
  | interrupted k =>
    rw [ended] at result
    cases result
    exact ⟨rfl, rfl, nofun⟩

/-- The ticks of a session that was reported as a success are the data rows of its file. -/
theorem lifecycle_summary {find : Lookup} {bind : String → Except SocketError String}
    {failOn : Option Nat} {settings : Settings} {report : Report}
    (life : Lifecycle find bind failOn settings report) {summary : Summary}
    (result : report.result = .ok summary) :
    ∃ bytes, find settings.source = .ok (.file bytes) ∧
      summary.loaded = (Tick.dataRows bytes).length ∧ summary.sent = payloads report.trace ∧
      (summary.interrupted = false → summary.sent = summary.loaded) := by
  simp only [Lifecycle] at life
  cases valid : settings.validate find with
  | error cause =>
    rw [valid] at life
    rw [life.2.1] at result
    cases result
  | ok _ =>
    cases load : Tick.load find settings.source with
    | error cause =>
      rw [valid, load] at life
      rw [life.1] at result
      cases result
    | ok ticks =>
      cases opens : bind settings.endpoint with
      | error cause =>
        rw [valid, load, opens] at life
        rw [life.1] at result
        cases result
      | ok endpoint =>
        rw [valid, load, opens] at life
        obtain ⟨ending, replayed⟩ := life
        obtain ⟨bytes, content, reads⟩ := (Tick.load_ok_iff find settings.source ticks).mp load
        obtain ⟨loaded, sent, whole⟩ := replayed.summary result
        exact ⟨bytes, content, loaded.trans reads.length_eq, sent, whole⟩

theorem validate_of_file {find : Lookup} {settings : Settings} {bytes : List UInt8}
    (content : find settings.source = .ok (.file bytes)) : settings.validate find = .ok () := by
  simp [Settings.validate, Lookup.isFile, content]

theorem sessionFrom_bad_row {find : Lookup} {settings : Settings} {bytes : List UInt8}
    {columns : Tick.Columns} {i : Nat} {record : Csv.Record} {cause : Tick.LoadError}
    (bind : String → Except SocketError String) (conditions : Conditions) (scene : Scene)
    (content : find settings.source = .ok (.file bytes))
    (header : Tick.readHeader bytes = .ok columns)
    (row : (Tick.dataRows bytes)[i]? = some record)
    (bad : Tick.readRow columns (i + 1) record = .error cause) :
    ∃ first, sessionFrom find bind conditions scene settings =
      ⟨.error (.load settings.source first), []⟩ := by
  have valid := validate_of_file content
  cases load : Tick.load find settings.source with
  | error first =>
    refine ⟨first, ?_⟩
    rw [sessionFrom, valid, load]
  | ok ticks =>
    obtain ⟨other, same, columns', header', rows⟩ :=
      (Tick.load_ok_iff find settings.source ticks).mp load
    cases content.symm.trans same
    cases Except.ok.inj (header.symm.trans header')
    have place := congrArg (fun results => results[i]?) rows
    simp only [List.getElem?_mapIdx, row, Option.map_some, bad, List.getElem?_map] at place
    cases tick : ticks[i]? with
    | none => rw [tick] at place; cases place
    | some _ => rw [tick] at place; cases place

/-- The lines of a session with signals only: the sends first, then at most one signal. A signal that is
    due before the socket is closed is received, and it interrupts what is left to send. -/
theorem session_signals {find : Lookup} {bind : String → Except SocketError String}
    {conditions : Conditions} {changes : List Timed} {settings : Settings} {ticks : List Tick}
    {endpoint : String} (inside : conditions.onSend = []) (signals : OnlySignals changes)
    (valid : settings.validate find = .ok ()) (load : Tick.load find settings.source = .ok ticks)
    (opens : bind settings.endpoint = .ok endpoint) :
    let report := session find bind conditions changes settings
    ∃ ending received, Replayed settings endpoint conditions.failOn ticks ending report ∧
      entries report.trace = openingLines settings endpoint ticks ++ sendLines ticks ending.sent ++
        signalLines received ++ [closedLine endpoint] ++ ending.verdict ticks.length ∧
      received.length ≤ 1 ∧
      (received ≠ [] → ticks ≠ [] → ∃ k, ending = .interrupted k) ∧
      ∃ finish, .closed finish ∈ report.trace ∧
        (received = [] → ∀ timed ∈ changes, finish < timed.time) := by
  let scene : Scene := ⟨0, untouched, schedule changes⟩
  have report : session find bind conditions changes settings =
      openReport settings endpoint conditions scene ticks := by
    simp only [session, sessionFrom, valid, load, opens]
    rfl
  have pending : OnlySignals scene.pending :=
    fun timed member => signals timed ((mem_schedule changes timed).mp member)
  have alone : ({ conditions with closing := [socketClosed endpoint] } : Conditions).onSend = [] :=
    inside
  have last : ∃ received, SignalLast scene.pending ticks received
      (openRun settings endpoint conditions scene ticks) :=
    warmAndBroadcast_signalLast alone settings.warmup settings.delay rfl pending
      (schedule_inOrder changes) (fun _ _ => Nat.zero_le _) ticks
  obtain ⟨received, last⟩ := last
  obtain ⟨run, _⟩ := openRun_publication settings endpoint conditions scene ticks
  have replayed := openReport_replayed settings endpoint conditions scene ticks
  rw [report]
  rw [openReport_eq] at replayed ⊢
  generalize openRun settings endpoint conditions scene ticks = played at last run replayed ⊢
  refine ⟨played.ending, received, replayed, ?_, last.most, last.ends, played.scene.now, by simp,
    fun none timed member => last.before none timed ((mem_schedule changes timed).mpr member)⟩
  have close : ∀ tail, entries (.closed played.scene.now :: tail) = entries tail := fun _ => rfl
  have sends := feedLines_publication run
  simp only [entries_append, entries_logged, close, last.lines, sends, List.append_assoc,
    List.singleton_append]

theorem session_lifecycle (find : Lookup) (bind : String → Except SocketError String)
    (conditions : Conditions) (scene : Scene) (settings : Settings) :
    let report := sessionFrom find bind conditions scene settings
    Lifecycle find bind conditions.failOn settings report ∧
    (∀ summary, report.result = .ok summary →
      ∃ bytes, find settings.source = .ok (.file bytes) ∧
        summary.loaded = (Tick.dataRows bytes).length ∧ summary.sent = payloads report.trace ∧
        (summary.interrupted = false → summary.sent = summary.loaded)) ∧
    (∀ bytes columns i record cause, find settings.source = .ok (.file bytes) →
      Tick.readHeader bytes = .ok columns → (Tick.dataRows bytes)[i]? = some record →
      Tick.readRow columns (i + 1) record = .error cause →
        ∃ first, report = ⟨.error (.load settings.source first), []⟩) ∧
    (∀ changes ticks endpoint, conditions.onSend = [] → OnlySignals changes →
      settings.validate find = .ok () → Tick.load find settings.source = .ok ticks →
      bind settings.endpoint = .ok endpoint →
        let signalled := session find bind conditions changes settings
        ∃ ending received,
          Replayed settings endpoint conditions.failOn ticks ending signalled ∧
          entries signalled.trace = openingLines settings endpoint ticks ++
            sendLines ticks ending.sent ++ signalLines received ++ [closedLine endpoint] ++
            ending.verdict ticks.length ∧
          received.length ≤ 1 ∧
          (received ≠ [] → ticks ≠ [] → ∃ k, ending = .interrupted k) ∧
          ∃ finish, .closed finish ∈ signalled.trace ∧
            (received = [] → ∀ timed ∈ changes, finish < timed.time)) := by
  have life := sessionFrom_lifecycle find bind conditions scene settings
  refine ⟨life, fun summary result => lifecycle_summary life result, ?_, ?_⟩
  · intro bytes columns i record cause content header row bad
    exact sessionFrom_bad_row bind conditions scene content header row bad
  · intro changes ticks endpoint inside signals valid load opens
    exact session_signals inside signals valid load opens

/-- Two rows and a signal in the pause between them, and the same rows with a bad last one. -/
theorem session_lifecycle_two_rows :
    let a : Tick := ⟨1, "A", .ofCode false 0x3ff0000000000000, .ofCode false 0x4000000000000000⟩
    let b : Tick := ⟨3, "B", .ofCode false 0x4010000000000000, .ofCode false 0x4014000000000000⟩
    let good : Lookup := fun _ =>
      .ok (.file (Utf8.encode "timestamp_ms,symbol,price,volume\n1,A,1,2\n3,B,4,5\n".toList))
    let bad : Lookup := fun _ =>
      .ok (.file (Utf8.encode "timestamp_ms,symbol,price,volume\n1,A,1,2\n3,B,4,x\n".toList))
    let settings : Settings := ⟨"ticks.csv", "tcp://127.0.0.1:5555", ⟨0, 10000000, by decide⟩,
      ⟨0, 5000000, by decide⟩⟩
    let changes : List Timed := [⟨8000000, .signal .terminate⟩]
    let report := session good .ok {} changes settings
    (OnlySignals changes ∧ settings.validate good = .ok () ∧
      Tick.load good settings.source = .ok [a, b] ∧ report.result = .ok ⟨2, 1, true⟩) ∧
    payloads report.trace = 1 ∧
    (∃ (ending : Ending) (received : List Signal), entries report.trace =
        openingLines settings "tcp://127.0.0.1:5555" [a, b] ++ sendLines [a, b] ending.sent ++
          signalLines received ++ [closedLine "tcp://127.0.0.1:5555"] ++ ending.verdict 2 ∧
      received.length ≤ 1) ∧
    ∃ first, sessionFrom bad .ok {} ⟨0, .initial .none, []⟩ settings =
      ⟨.error (.load "ticks.csv" first), []⟩ := by
  intro a b good bad settings changes report
  have signals : OnlySignals changes := by simp [changes, OnlySignals]
  have valid : settings.validate good = .ok () := by decide +kernel
  have load : Tick.load good settings.source = .ok [a, b] := by decide +kernel
  have result : report.result = .ok ⟨2, 1, true⟩ := by decide +kernel
  obtain ⟨_, summary, _, signalled⟩ := session_lifecycle good .ok {}
    ⟨0, untouched, schedule changes⟩ settings
  obtain ⟨_, _, row, _⟩ := session_lifecycle bad .ok {} ⟨0, .initial .none, []⟩ settings
  refine ⟨⟨signals, valid, load, result⟩, ?_, ?_, ?_⟩
  · obtain ⟨_, _, _, sent, _⟩ := summary ⟨2, 1, true⟩ result
    exact sent.symm
  · obtain ⟨ending, received, _, lines, most, _⟩ := signalled changes [a, b]
      "tcp://127.0.0.1:5555" rfl signals valid load rfl
    exact ⟨ending, received, lines, most⟩
  · have header : Tick.readHeader (Utf8.encode
        "timestamp_ms,symbol,price,volume\n1,A,1,2\n3,B,4,x\n".toList) = .ok ⟨0, 1, 2, 3⟩ := by
      decide +kernel
    exact row _ ⟨0, 1, 2, 3⟩ 1 ⟨[[51], [66], [52], [120]], ⟨41, 3⟩⟩ (.malformed 2 .volume "x") rfl
      header (by decide +kernel) (by decide +kernel)

end TickReplay.Feed
