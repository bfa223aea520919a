import TickReplay.Settings
import TickReplay.Tail

/- The options of the two commands: their names, their help, and how their values are read. -/
namespace TickReplay.CommandLine

inductive Opt where
  | file
  | endpoint
  | delay
  | warmup
  | symbol
  | limit
  deriving DecidableEq, Repr

namespace Opt

def name : Opt → String
  | .file => "file"
  | .endpoint => "endpoint"
  | .delay => "delay"
  | .warmup => "warmup"
  | .symbol => "symbol"
  | .limit => "limit"

def letter : Opt → Char
  | .file => 'f'
  | .endpoint => 'e'
  | .delay => 'd'
  | .warmup => 'w'
  | .symbol => 's'
  | .limit => 'l'

def valueName (opt : Opt) : String := opt.name.toUpper

def display (opt : Opt) : String := s!"--{opt.name} <{opt.valueName}>"

end Opt

inductive Flag where
  | help
  | version
  deriving DecidableEq, Repr

def Flag.name : Flag → String
  | .help => "help"
  | .version => "version"

def Flag.letter : Flag → Char
  | .help => 'h'
  | .version => 'V'

inductive Level where
  | top
  | run
  | tail
  deriving DecidableEq, Repr

def Level.options : Level → List Opt
  | .tail => [.endpoint, .symbol, .limit]
  | _ => [.file, .endpoint, .delay, .warmup]

def Level.flags : Level → List Flag
  | .top => [.help, .version]
  | _ => [.help]

structure Given where
  file : Option String := none
  endpoint : Option String := none
  delay : Option Binary64 := none
  warmup : Option Binary64 := none
  symbol : Option String := none
  limit : Option Nat := none
  deriving DecidableEq, Repr

namespace Given

def has (given : Given) : Opt → Bool
  | .file => given.file.isSome
  | .endpoint => given.endpoint.isSome
  | .delay => given.delay.isSome
  | .warmup => given.warmup.isSome
  | .symbol => given.symbol.isSome
  | .limit => given.limit.isSome

end Given

structure RunArgs where
  file : String
  endpoint : String
  delay : Binary64
  warmup : Binary64
  deriving DecidableEq, Repr

inductive Command where
  | run (args : RunArgs)
  | tail (options : Tail.Options)
  deriving DecidableEq, Repr

def defaultDelay : Binary64 := Binary64.ofCode false (Binary64.ofDecimal 1 (-2))
def defaultWarmup : Binary64 := Binary64.ofCode false (Binary64.ofDecimal 1 0)

def Given.runArgs (given : Given) : RunArgs :=
  { file := given.file.getD Settings.defaultSource
    endpoint := given.endpoint.getD Settings.defaultEndpoint
    delay := given.delay.getD defaultDelay
    warmup := given.warmup.getD defaultWarmup }

def Given.tailOptions (given : Given) : Tail.Options :=
  { endpoint := given.endpoint.getD Settings.defaultEndpoint
    symbol := given.symbol
    limit := given.limit }

def Given.command (given : Given) : Level → Command
  | .tail => .tail given.tailOptions
  | _ => .run given.runArgs

/-- The settings of a replay; the delay is checked before the warm-up. -/
def RunArgs.settings (args : RunArgs) : Except SettingsError Settings := do
  let delay ← Settings.seconds "--delay" args.delay
  let warmup ← Settings.seconds "--warmup" args.warmup
  return ⟨args.file, args.endpoint, delay, warmup⟩

end TickReplay.CommandLine
