import Std.Time.DateTime.Timestamp
import TickReplay.CommandLine.Reader
import TickReplay.Feed.Session

/- The command line. A run plays its session in real time on this terminal, where every payload is a
   line of its own; a tail reads payloads from the lines of its input. -/
namespace TickReplay.Main

def clock : IO Nat := do
  return (← Std.Time.Timestamp.now).toMillisecondsSinceUnixEpoch.val.toNat

def findOnDisk (path : String) : IO Lookup := do
  try
    let content ← IO.FS.readBinFile path
    return fun _ => .ok (.file content.toList)
  catch _ => return fun _ => .error .notFound

def print (printed : Log.Printed) : IO Unit :=
  match printed.stream with
  | .output => IO.println printed.line
  | .errors => IO.eprintln printed.line

def log (entry : Log.Entry) : IO Unit := do
  print ⟨entry.level.stream, entry.line (← clock)⟩

def longestSleep : Nat := 60000

partial def waitUntil (start time : Nat) : IO Unit := do
  let elapsed := (← IO.monoNanosNow) - start
  if elapsed < time then
    IO.sleep (min longestSleep ((time - elapsed) / 1000000 + 1)).toUInt32
    waitUntil start time

def play (start : Nat) : Feed.Happening → IO Unit
  | .sent payload time => do
    waitUntil start time
    IO.println payload
  | .refused time => waitUntil start time
  | .closed time => waitUntil start time
  | .logged entry => log entry

def fail (message : String) : IO UInt32 := do
  IO.eprintln s!"Error: {message}"
  return 1

def run (args : CommandLine.RunArgs) : IO UInt32 := do
  match args.settings with
  | .error error => fail error.message
  | .ok settings =>
    let find ← findOnDisk settings.source
    let report := Feed.session find Endpoint.accept {} [] settings
    let start ← IO.monoNanosNow
    report.trace.forM (play start)
    match report.result with
    | .ok _ => return 0
    | .error error => fail error.message

partial def followInput (input : IO.FS.Stream) (options : Tail.Options) (printed : Nat) :
    IO Unit := do
  let line ← input.getLine
  if line.isEmpty then return
  let payload := line.toList.takeWhile (· != '\n')
  let output := options.output [Utf8.encode payload]
  (output.text (← clock)).forM IO.println
  (options.next printed output).forM (followInput input options)

def tail (options : Tail.Options) : IO UInt32 := do
  IO.println (Tail.banner options)
  followInput (← IO.getStdin) options 0
  return 0

def complain (error : CommandLine.UsageError) : IO UInt32 :=
  match error with
  | .help _ | .version => do
    IO.print error.message
    return 0
  | _ => do
    IO.eprintln error.message
    return 2

end TickReplay.Main

def main (words : List String) : IO UInt32 :=
  match TickReplay.CommandLine.read words with
  | .ok (.run args) => TickReplay.Main.run args
  | .ok (.tail options) => TickReplay.Main.tail options
  | .error error => TickReplay.Main.complain error
