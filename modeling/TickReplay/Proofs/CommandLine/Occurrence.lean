import TickReplay.CommandLine.Reader
import TickReplay.Proofs.Text.Utf8

/- The ways of writing an option with its value, and how the reader takes one of them. However it is
   written, an occurrence settles the option in front of it and then gives its own value; only the time of
   the second step differs. -/
namespace TickReplay.CommandLine

inductive Spelling where
  | long
  | longEquals
  | short
  | shortAttached
  | shortEquals
  deriving DecidableEq, Repr

structure Occurrence where
  opt : Opt
  value : String
  spelling : Spelling
  deriving DecidableEq, Repr

/-- A word that stands for itself, as a value or the name of a command does. -/
def Plain (word : String) : Prop := word = "-" ∨ word.toList.head? ≠ some '-'

namespace Occurrence

def words (o : Occurrence) : List String :=
  match o.spelling with
  | .long => [s!"--{o.opt.name}", o.value]
  | .longEquals => [s!"--{o.opt.name}={o.value}"]
  | .short => [s!"-{o.opt.letter}", o.value]
  | .shortAttached => [s!"-{o.opt.letter}{o.value}"]
  | .shortEquals => [s!"-{o.opt.letter}={o.value}"]

def Apart (o : Occurrence) : Prop := o.spelling = .long ∨ o.spelling = .short

def Legible (o : Occurrence) : Prop :=
  match o.spelling with
  | .long | .short => Plain o.value
  | .shortAttached => o.value ≠ "" ∧ o.value.toList.head? ≠ some '='
  | .longEquals | .shortEquals => True

end Occurrence

theorem readLong_ne_plain (cs : List Char) : readLong cs ≠ .plain := by
  rw [readLong]
  split <;> nofun

theorem read_plain_iff (word : String) : Word.read word = .plain ↔ Plain word := by
  have hyphen : word = "-" ↔ word.toList = ['-'] := String.toList_inj.symm
  rw [Plain, hyphen, Word.read]
  generalize word.toList = cs
  split
  · simp
  · simp [readLong_ne_plain]
  · simp
  · next single double short =>
    match cs with
    | [] => simp
    | [c] => by_cases dash : c = '-' <;> simp [dash]
    | c :: d :: more =>
      have other : c ≠ '-' := by
        rintro rfl
        exact short d more rfl
      simp [other]

theorem read_long (opt : Opt) : Word.read s!"--{opt.name}" = .long opt.name none := by
  cases opt <;> rfl

theorem read_long_equals (opt : Opt) (value : String) :
    Word.read s!"--{opt.name}={value}" = .long opt.name (some value) := by
  cases opt <;> simp [Word.read, readLong, Opt.name, toString]

theorem read_short (opt : Opt) : Word.read s!"-{opt.letter}" = .short opt.letter [] := by
  cases opt <;> rfl

theorem read_short_attached (opt : Opt) (value : String) :
    Word.read s!"-{opt.letter}{value}" = .short opt.letter value.toList := by
  cases opt <;> simp [Word.read, Opt.letter, toString]

theorem read_short_equals (opt : Opt) (value : String) :
    Word.read s!"-{opt.letter}={value}" = .short opt.letter ('=' :: value.toList) := by
  cases opt <;> simp [Word.read, Opt.letter, toString]

theorem find_name {level : Level} {opt : Opt} (known : opt ∈ level.options) :
    (level.options.find? fun other => other.name == opt.name) = some opt := by
  cases level <;> cases opt <;> first | rfl | simp [Level.options] at known

theorem find_letter {level : Level} {opt : Opt} (known : opt ∈ level.options) :
    (level.options.find? fun other => other.letter == opt.letter) = some opt := by
  cases level <;> cases opt <;> first | rfl | simp [Level.options] at known

inductive Begins (opt : Opt) : Word → Option String → Prop where
  | long (value : Option String) : Begins opt (.long opt.name value) value
  | short (rest : List Char) : Begins opt (.short opt.letter rest) (attached rest)

def Given.give (given : Given) (o : Occurrence) : Except UsageError Given :=
  given.settle (some ⟨o.opt, some o.value⟩)

namespace State

def settled (state : State) : Except UsageError Given := state.given.settle state.pending

/-- Behind an occurrence a value in a word of its own is still to be settled. -/
def take (state : State) (o : Occurrence) : Except UsageError State := do
  let given ← state.settled
  match o.spelling with
  | .long | .short => return ⟨given, some ⟨o.opt, some o.value⟩, true⟩
  | .longEquals | .shortAttached | .shortEquals => return ⟨← given.give o, none, true⟩

theorem take_settled (state : State) (o : Occurrence) :
    (state.take o >>= settled) = state.settled >>= fun given => given.give o := by
  obtain ⟨opt, value, spelling⟩ := o
  rw [take]
  cases state.settled with
  | error _ => rfl
  | ok given =>
    cases spelling with
    | long | short => rfl
    | longEquals | shortAttached | shortEquals =>
      simp only [bind, Except.bind]
      cases given.give _ <;> rfl

end State

def Enters (level : Level) (state : State) (word : String) : Prop :=
  (level = .top ∧ state.seen = false) ∧ ((commandNamed? word).isSome ∨ word = helpWord)

theorem not_enters_of_seen {state : State} (seen : state.seen = true) (level : Level)
    (word : String) : ¬ Enters level state word := by
  rintro ⟨⟨-, fresh⟩, -⟩
  rw [seen] at fresh
  contradiction

theorem readWords_cons {level : Level} {state : State} {word : String}
    (inside : ¬ Enters level state word) (more : List String) :
    readWords level state (word :: more) =
      match Word.read word with
      | .dashes => readClosed level state more
      | .long name value => do readWords level (← state.long level name value) more
      | .short letter rest => do readWords level (← state.short level letter rest) more
      | .plain =>
        match state.waiting with
        | some opt => readWords level { state with pending := some ⟨opt, some word⟩ } more
        | none => .error (stray level state.given state.pending state.seen false word) := by
  have command : (if level = .top ∧ state.seen = false then commandNamed? word else none) = none := by
    split
    · next enters =>
      refine Option.not_isSome_iff_eq_none.mp fun named => ?_
      exact inside ⟨enters, .inl named⟩
    · rfl
  have help : ¬ ((level = .top ∧ state.seen = false) ∧ word = helpWord) :=
    fun ⟨enters, named⟩ => inside ⟨enters, .inr named⟩
  simp only [readWords, command, if_neg help]
  cases Word.read word with
  | dashes => rfl
  | plain => rfl
  | long name value =>
    dsimp only
    cases state.long level name value <;> rfl
  | short letter rest =>
    dsimp only
    cases state.short level letter rest <;> rfl

theorem command_plain {word : String} (named : (commandNamed? word).isSome ∨ word = helpWord) :
    Plain word := by
  have words : word = "run" ∨ word = "tail" ∨ word = "help" := by
    grind [commandNamed?, helpWord]
  rcases words with rfl | rfl | rfl <;> exact .inr (by decide)

theorem not_enters_of_option {word : String} (option : Word.read word ≠ .plain) (level : Level)
    (state : State) : ¬ Enters level state word :=
  fun ⟨_, named⟩ => option ((read_plain_iff word).mpr (command_plain named))

theorem readWords_value {word : String} (plain : Plain word) (level : Level) (given : Given)
    (opt : Opt) (more : List String) :
    readWords level ⟨given, some ⟨opt, none⟩, true⟩ (word :: more) =
      readWords level ⟨given, some ⟨opt, some word⟩, true⟩ more := by
  have inside : ¬ Enters level ⟨given, some ⟨opt, none⟩, true⟩ word := nofun
  rw [readWords_cons inside, (read_plain_iff word).mpr plain]
  rfl

theorem attached_plain {value : String} (some_ : value ≠ "") (head : value.toList.head? ≠ some '=') :
    attached value.toList = some value := by
  rw [attached.eq_def]
  split
  · next empty => exact absurd (String.toList_eq_nil_iff.mp empty) some_
  · next rest equals => simp [equals] at head
  · rw [String.ofList_toList]

theorem readWords_begin {level : Level} {opt : Opt} (known : opt ∈ level.options) {word : String}
    {value : Option String} (begins : Begins opt (Word.read word) value) (state : State)
    (more : List String) :
    readWords level state (word :: more) =
      state.begin opt value >>= fun state => readWords level state more := by
  have option : Word.read word ≠ .plain := by
    intro plain
    rw [plain] at begins
    contradiction
  rw [readWords_cons (not_enters_of_option option level state)]
  generalize Word.read word = front at begins
  cases begins with
  | long => simp only [State.long, find_name known]
  | short => simp only [State.short, find_letter known]

theorem readWords_apart {o : Occurrence} (apart : o.Apart)
    (plain : Plain o.value) (level : Level) (state : State) (more : List String) :
    (state.begin o.opt none >>= fun state => readWords level state (o.value :: more)) =
      state.take o >>= fun state => readWords level state more := by
  have later : state.take o =
      state.settled >>= fun given => .ok ⟨given, some ⟨o.opt, some o.value⟩, true⟩ := by
    rw [State.take]
    rcases apart with long | short
    · rw [long]
      rfl
    · rw [short]
      rfl
  rw [later, State.begin, State.settled]
  cases state.given.settle state.pending with
  | error _ => rfl
  | ok given => exact readWords_value plain level given o.opt more

/-- However an occurrence is written, reading goes on behind it in the state in which it is taken. -/
theorem readWords_occurrence {level : Level} {o : Occurrence} (known : o.opt ∈ level.options)
    (legible : o.Legible) (state : State) (more : List String) :
    readWords level state (o.words ++ more) =
      state.take o >>= fun state => readWords level state more := by
  obtain ⟨opt, value, spelling⟩ := o
  cases spelling with
  | long =>
    have begins : Begins opt (.long opt.name none) none := .long none
    rw [← read_long] at begins
    rw [Occurrence.words, List.cons_append, readWords_begin known begins]
    exact readWords_apart (.inl rfl) legible level state more
  | longEquals =>
    have begins : Begins opt (.long opt.name (some value)) (some value) := .long (some value)
    rw [← read_long_equals] at begins
    exact readWords_begin known begins state more
  | short =>
    have begins : Begins opt (.short opt.letter []) none := .short []
    rw [← read_short] at begins
    rw [Occurrence.words, List.cons_append, readWords_begin known begins]
    exact readWords_apart (.inr rfl) legible level state more
  | shortAttached =>
    have begins : Begins opt (.short opt.letter value.toList) (attached value.toList) := .short _
    rw [← read_short_attached, attached_plain legible.1 legible.2] at begins
    exact readWords_begin known begins state more
  | shortEquals =>
    have begins : Begins opt (.short opt.letter ('=' :: value.toList)) (attached _) := .short _
    rw [← read_short_equals, attached, String.ofList_toList] at begins
    exact readWords_begin known begins state more

end TickReplay.CommandLine
