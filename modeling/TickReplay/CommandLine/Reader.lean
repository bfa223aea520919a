import TickReplay.CommandLine.Help
import TickReplay.Text.Terminal

/- Reading a command line. An option takes its value from the same word or from the next one, and is
   settled when another option begins or the words end; the first fault found ends the reading. Once
   an option has been seen no command word may follow. -/
namespace TickReplay.CommandLine

inductive UsageError where
  | unexpected (word : String)
  | unknownCommand (word : String)
  | missingValue (opt : Opt)
  | invalidValue (opt : Opt) (value : String) (cause : String)
  | repeated (opt : Opt)
  | commandAfter (word : String) (options : List Opt)
  | unneededValue (flag : Flag) (value : String)
  | help (text : String)
  | version
  deriving DecidableEq, Repr

def conflicting : List Opt → String
  | [] => " one or more of the other specified arguments"
  | [opt] => s!" '{opt.display}'"
  | _ => ":"

def firstLine (text : String) : String :=
  String.ofList (Text.firstLine text.toList)

open Text.Terminal (visible)

def UsageError.message : UsageError → String
  | .help text => text
  | .version => versionText
  | .unexpected word => firstLine s!"error: unexpected argument '{visible word}' found"
  | .unknownCommand word => firstLine s!"error: unrecognized subcommand '{visible word}'"
  | .missingValue opt => s!"error: a value is required for '{opt.display}' but none was supplied"
  | .invalidValue opt value cause =>
    firstLine s!"error: invalid value '{visible value}' for '{opt.display}': {cause}"
  | .repeated opt => s!"error: the argument '{opt.display}' cannot be used multiple times"
  | .commandAfter word options =>
    firstLine
      s!"error: the subcommand '{visible word}' cannot be used with{conflicting options}"
  | .unneededValue flag value =>
    firstLine <| s!"error: unexpected value '{visible value}' for '--{flag.name}' found; " ++
      "no more were expected"

def readReal (opt : Opt) (value : String) : Except UsageError Binary64 :=
  match Decimal.readLiteral value.toList with
  | .ok x => .ok x
  | .error cause => .error (.invalidValue opt value cause.message)

def countLimit : Nat := word64 - 1

def readLimit (value : String) : Except UsageError Nat :=
  match Text.readCount countLimit value.toList with
  | .ok n => .ok n
  | .error cause => .error (.invalidValue .limit value cause.message)

def Given.set (given : Given) (opt : Opt) (value : String) : Except UsageError Given :=
  match opt with
  | .file =>
    if value.isEmpty then .error (.missingValue .file)
    else .ok { given with file := some value }
  | .endpoint => .ok { given with endpoint := some value }
  | .delay => (readReal .delay value).map fun x => { given with delay := some x }
  | .warmup => (readReal .warmup value).map fun x => { given with warmup := some x }
  | .symbol => .ok { given with symbol := some value }
  | .limit => (readLimit value).map fun n => { given with limit := some n }

structure Pending where
  opt : Opt
  value : Option String
  deriving DecidableEq, Repr

def Given.settle (given : Given) : Option Pending → Except UsageError Given
  | none => .ok given
  | some ⟨opt, none⟩ => .error (.missingValue opt)
  | some ⟨opt, some value⟩ =>
    if given.has opt then .error (.repeated opt) else given.set opt value

/-- The options that a complaint about a command word lists. A repeated one has dropped out, one
    whose value is refused has not. -/
def mentioned (level : Level) (given : Given) (pending : Option Pending) : List Opt :=
  level.options.filter fun opt =>
    match pending with
    | some ⟨last, some _⟩ => if opt = last then !given.has opt else given.has opt
    | _ => given.has opt

def commandNamed? (word : String) : Option Level :=
  if word = "run" then some .run else if word = "tail" then some .tail else none

def helpWord : String := "help"

def helpFor : List String → UsageError
  | [] => .help (Level.helpText .top)
  | word :: more =>
    match commandNamed? word, more with
    | some level, [] => .help level.helpText
    | some _, next :: _ => .unknownCommand next
    | none, next =>
      if word = helpWord then
        match next with
        | [] => .help helpHelpText
        | other :: _ => .unknownCommand other
      else .unknownCommand word

def stray (level : Level) (given : Given) (pending : Option Pending) (seen closed : Bool)
    (word : String) : UsageError :=
  if level ≠ .top then .unexpected word
  else if seen then .commandAfter word (mentioned level given pending)
  else if closed && ((commandNamed? word).isSome || word = helpWord) then .unexpected word
  else .unknownCommand word

inductive Word where
  | dashes
  | long (name : String) (value : Option String)
  | short (letter : Char) (rest : List Char)
  | plain
  deriving DecidableEq, Repr

def readLong (cs : List Char) : Word :=
  match cs.dropWhile (· != '=') with
  | [] => .long (String.ofList cs) none
  | _ :: value => .long (String.ofList (cs.takeWhile (· != '='))) (some (String.ofList value))

def Word.read (word : String) : Word :=
  match word.toList with
  | ['-', '-'] => .dashes
  | '-' :: '-' :: cs => readLong cs
  | '-' :: c :: rest => .short c rest
  | _ => .plain

/-- The value in the rest of a short option's word; an equals sign in front of it is dropped. -/
def attached : List Char → Option String
  | [] => none
  | '=' :: value => some (String.ofList value)
  | value => some (String.ofList value)

def Flag.raise (level : Level) : Flag → UsageError
  | .help => .help level.helpText
  | .version => .version

structure State where
  given : Given := {}
  pending : Option Pending := none
  seen : Bool := false
  deriving DecidableEq, Repr

def State.begin (state : State) (opt : Opt) (value : Option String) : Except UsageError State := do
  let given ← state.given.settle state.pending
  match value with
  | none => return ⟨given, some ⟨opt, none⟩, true⟩
  | some _ => return ⟨← given.settle (some ⟨opt, value⟩), none, true⟩

def State.raise (state : State) (level : Level) (flag : Flag) : UsageError :=
  match state.given.settle state.pending with
  | .ok _ => flag.raise level
  | .error error => error

def State.long (state : State) (level : Level) (name : String) (value : Option String) :
    Except UsageError State :=
  match level.options.find? fun opt => opt.name == name with
  | some opt => state.begin opt value
  | none =>
    match level.flags.find? fun flag => flag.name == name, value with
    | some flag, none => .error (state.raise level flag)
    | some flag, some value => .error (.unneededValue flag value)
    | none, _ => .error (.unexpected s!"--{name}")

def State.short (state : State) (level : Level) (letter : Char) (rest : List Char) :
    Except UsageError State :=
  match level.options.find? fun opt => opt.letter == letter with
  | some opt => state.begin opt (attached rest)
  | none =>
    match level.flags.find? fun flag => flag.letter == letter with
    | some flag => .error (state.raise level flag)
    | none => .error (.unexpected s!"-{letter}")

def State.waiting (state : State) : Option Opt :=
  match state.pending with
  | some ⟨opt, none⟩ => some opt
  | _ => none

def State.finish (state : State) (level : Level) : Except UsageError Command := do
  let given ← state.given.settle state.pending
  return given.command level

/-- The words behind two dashes; none is an option, and there is no place for any other. -/
def readClosed (level : Level) (state : State) : List String → Except UsageError Command
  | [] => state.finish level
  | word :: _ => .error (stray level state.given state.pending state.seen true word)

def readWords (level : Level) (state : State) : List String → Except UsageError Command
  | [] => state.finish level
  | word :: more =>
    let entersCommand := level = .top ∧ state.seen = false
    match if entersCommand then commandNamed? word else none with
    | some command => readWords command {} more
    | none =>
      if entersCommand ∧ word = helpWord then .error (helpFor more)
      else match Word.read word with
        | .dashes => readClosed level state more
        | .long name value =>
          match state.long level name value with
          | .ok state => readWords level state more
          | .error error => .error error
        | .short letter rest =>
          match state.short level letter rest with
          | .ok state => readWords level state more
          | .error error => .error error
        | .plain =>
          match state.waiting with
          | some opt => readWords level { state with pending := some ⟨opt, some word⟩ } more
          | none => .error (stray level state.given state.pending state.seen false word)

def read (words : List String) : Except UsageError Command := readWords .top {} words

end TickReplay.CommandLine
