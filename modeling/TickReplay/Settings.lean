import TickReplay.Duration
import TickReplay.Tick.File

/- What a replay is asked to do. The default source is the sample of the package, looked up under its
   path like any other file. -/
namespace TickReplay

structure Settings where
  source : String
  endpoint : String
  delay : Duration
  warmup : Duration
  deriving DecidableEq, Repr

inductive SettingsError where
  | sourceNotFound (path : String)
  | invalidSeconds (name : String) (value : Binary64)
  deriving DecidableEq, Repr

def SettingsError.message : SettingsError → String
  | .sourceNotFound path => s!"CSV file not found: {path}"
  | .invalidSeconds name value =>
    s!"{name} must be a finite, non-negative number of seconds, got {Decimal.plainText value}"

namespace Settings

/-- Where the manifest of the package lies, which the build fills in. -/
def manifestDirectory : String := "/usr/src/backtest-feeder"

def defaultSource : String := manifestDirectory ++ "/data/sample_ticks.csv"
def defaultEndpoint : String := "tcp://127.0.0.1:5555"

def default : Settings :=
  ⟨defaultSource, defaultEndpoint, Duration.ofMillis 10, Duration.ofMillis 1000⟩

def seconds (name : String) (value : Binary64) : Except SettingsError Duration :=
  (Duration.ofSeconds? value).elim (.error (.invalidSeconds name value)) .ok

def validate (find : Lookup) (settings : Settings) : Except SettingsError Unit :=
  if find.isFile settings.source then .ok () else .error (.sourceNotFound settings.source)

end Settings
end TickReplay
