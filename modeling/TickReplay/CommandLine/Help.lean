import TickReplay.CommandLine.Option

/- Help texts. Each option takes one line, with its forms on the left and its help, followed by its
   default, on the right. -/
namespace TickReplay.CommandLine

def programName : String := "backtest-feeder"
def programVersion : String := "0.1.0"
def versionText : String := s!"{programName} {programVersion}\n"

def Opt.purpose (level : Level) : Opt → String
  | .file => "Path to the CSV tick file"
  | .endpoint => if level = .tail then "PUB endpoint to subscribe to" else "PUB endpoint to bind"
  | .delay => "Seconds between sends"
  | .warmup => "Seconds to wait after binding before the first send"
  | .symbol => "Filter ticks to a single symbol (e.g. AAPL)"
  | .limit => "Stop after printing this many ticks"

def Opt.default? : Opt → Option String
  | .file => some Settings.defaultSource
  | .endpoint => some Settings.defaultEndpoint
  | .delay => some (Decimal.plainText defaultDelay)
  | .warmup => some (Decimal.plainText defaultWarmup)
  | .symbol => none
  | .limit => none

def Flag.purpose : Flag → String
  | .help => "Print help"
  | .version => "Print version"

def columns (rows : List (String × String)) : String :=
  let width := rows.foldl (fun n row => max n row.1.length) 0
  String.join (rows.map fun row =>
    "  " ++ row.1 ++ String.ofList (List.replicate (width - row.1.length + 2) ' ') ++ row.2 ++ "\n")

def Opt.helpRow (level : Level) (opt : Opt) : String × String :=
  (s!"-{opt.letter}, {opt.display}",
   opt.purpose level ++ (opt.default?.elim "" fun value => s!" [default: {value}]"))

def Flag.helpRow (flag : Flag) : String × String :=
  (s!"-{flag.letter}, --{flag.name}", flag.purpose)

def Level.about : Level → String
  | .top => "Backtest data feeder: replays CSV ticks over a ZeroMQ PUB socket"
  | .run => "Replay the tick file over the PUB socket (default)"
  | .tail => "Subscribe to a feeder and print incoming ticks"

def helpAbout : String := "Print this message or the help of the given subcommand(s)"

def Level.usage : Level → String
  | .top => s!"Usage: {programName} [OPTIONS]\n       {programName} <COMMAND>\n"
  | .run => s!"Usage: {programName} run [OPTIONS]\n"
  | .tail => s!"Usage: {programName} tail [OPTIONS]\n"

def commandTable : String :=
  "Commands:\n" ++
    columns [("run", Level.about .run), ("tail", Level.about .tail), ("help", helpAbout)] ++ "\n"

def Level.helpText (level : Level) : String :=
  level.about ++ "\n\n" ++ level.usage ++ "\n" ++ (if level = .top then commandTable else "") ++
    "Options:\n" ++
      columns (level.options.map (Opt.helpRow level) ++ level.flags.map Flag.helpRow)

def helpHelpText : String :=
  helpAbout ++ "\n\n" ++ s!"Usage: {programName} help [COMMAND]...\n" ++ "\nArguments:\n" ++
    columns [("[COMMAND]...", "Print help for the subcommand(s)")]

end TickReplay.CommandLine
