import TickReplay.Proofs.CommandLine.Given
import TickReplay.Proofs.CommandLine.Legible

/- Whole command lines: a command word or none, the options in any order and spelling, and two dashes at
   the end or none. These are the lines that are read, and a line is read to the command that holds the
   values of its options. -/
namespace TickReplay.CommandLine

def Level.word : Level → List String
  | .top => []
  | .run => ["run"]
  | .tail => ["tail"]

structure Line where
  level : Level
  options : List Occurrence
  closed : Bool

namespace Line

def rest (line : Line) : List String :=
  line.options.flatMap Occurrence.words ++ if line.closed then ["--"] else []

def words (line : Line) : List String := line.level.word ++ line.rest

def Legible (line : Line) : Prop :=
  ∀ o ∈ line.options, o.opt ∈ line.level.options ∧ o.Legible

/-- The command that a line asks for: no option twice, every value held, defaults for the rest. -/
structure Asks (line : Line) (command : Command) : Prop where
  level : command.level = line.level.named
  once : (line.options.map Occurrence.opt).Nodup
  holds : command.Holds line.options

end Line

theorem rest_cons (level : Level) (o : Occurrence) (options : List Occurrence) (closed : Bool) :
    Line.rest ⟨level, o :: options, closed⟩ = o.words ++ Line.rest ⟨level, options, closed⟩ := by
  rw [Line.rest, List.flatMap_cons, List.append_assoc]
  rfl

section Complete

theorem finish_eq_map (state : State) (level : Level) :
    state.finish level = state.settled.map fun given => given.command level := by
  rw [State.finish, State.settled]
  cases state.given.settle state.pending <;> rfl

theorem readWords_dashes (level : Level) (state : State) :
    readWords level state ["--"] = state.finish level := by
  have option : Word.read "--" ≠ .plain := by decide
  rw [readWords_cons (not_enters_of_option option level state)]
  rfl

theorem readWords_rest {line : Line} (legible : line.Legible) (state : State) :
    readWords line.level state line.rest =
      (state.settled >>= fun given => line.options.foldlM Given.give given).map
        fun given => given.command line.level := by
  obtain ⟨level, options, closed⟩ := line
  induction options generalizing state with
  | nil =>
    have finished : readWords level state (Line.rest ⟨level, [], closed⟩) = state.finish level := by
      cases closed with
      | false => rfl
      | true => exact readWords_dashes level state
    rw [finished, finish_eq_map]
    cases state.settled <;> rfl
  | cons o options ih =>
    obtain ⟨⟨known, value⟩, legible⟩ := List.forall_mem_cons.mp legible
    have behind (state : State) : readWords level state (Line.rest ⟨level, options, closed⟩) =
        (state.settled >>= fun given => options.foldlM Given.give given).map
          fun given => given.command level := ih state legible
    rw [rest_cons, readWords_occurrence known value]
    simp only [behind, List.foldlM_cons]
    rw [← bind_assoc, ← state.take_settled o]
    cases state.take o <;> rfl

theorem read_words (line : Line) : read line.words = readWords line.level {} line.rest := by
  obtain ⟨level, options, closed⟩ := line
  cases level <;> rfl

theorem read_line_iff {line : Line} (legible : line.Legible) (command : Command) :
    read line.words = .ok command ↔ line.Asks command := by
  have known : ∀ o ∈ line.options, o.opt ∈ line.level.options := fun o member =>
    (legible o member).1
  rw [read_words, readWords_rest legible, map_ok_iff]
  refine (foldlM_command_iff known command).trans ?_
  exact ⟨fun ⟨level, once, holds⟩ => ⟨level, once, holds⟩, fun ⟨level, once, holds⟩ =>
    ⟨level, once, holds⟩⟩

theorem asks_of_readable {line : Line} (known : ∀ o ∈ line.options, o.opt ∈ line.level.options)
    (once : (line.options.map Occurrence.opt).Nodup)
    (readable : ∀ o ∈ line.options, ∃ value, o.opt.value? o.value = some value) :
    ∃ command, line.Asks command := by
  obtain ⟨given, settled⟩ := Given.foldlM_of_readable once
    (fun o _ => Given.value?_empty o.opt) readable
  obtain ⟨level, once, holds⟩ := (foldlM_command_iff known _).mp ⟨given, settled, rfl⟩
  exact ⟨_, level, once, holds⟩

end Complete

section Sound

variable {level : Level} {command : Command}

/-- Accepted words that do not enter a command are those of a line. -/
theorem rest_of_readWords {words : List String} {state : State}
    (inside : ∀ word ∈ words.head?, ¬ Enters level state word) (idle : state.waiting = none)
    (accepted : readWords level state words = .ok command) :
    ∃ line : Line, line.level = level ∧ line.Legible ∧ line.rest = words := by
  -- An occurrence is taken off the front, which leaves fewer words.
  induction size : words.length using Nat.strongRecOn generalizing words state with
  | ind n ih =>
    cases words with
    | nil => exact ⟨⟨level, [], false⟩, rfl, nofun, rfl⟩
    | cons word more =>
      have first := occurrence_of_readWords (inside word rfl) idle accepted
      rcases first with ⟨rfl, rfl⟩ | ⟨o, rest, legible, same⟩
      · exact ⟨⟨level, [], true⟩, rfl, nofun, rfl⟩
      · rw [same, readWords_occurrence legible.1 legible.2, bind_ok_iff] at accepted
        obtain ⟨after, taken, accepted⟩ := accepted
        obtain ⟨seen, idle⟩ := take_ok taken
        have shorter : rest.length < n := by
          obtain ⟨_, _, front, -⟩ := o.words_front
          rw [same, front] at size
          simp at size
          omega
        have inside : ∀ word ∈ rest.head?, ¬ Enters level after word := fun word _ =>
          not_enters_of_seen seen level word
        obtain ⟨line, rfl, legible', same'⟩ := ih _ shorter inside idle accepted rfl
        refine ⟨{ line with options := o :: line.options }, rfl,
          List.forall_mem_cons.mpr ⟨legible, legible'⟩, ?_⟩
        rw [same, ← same', rest_cons]

theorem line_of_read {words : List String} (accepted : read words = .ok command) :
    ∃ line : Line, line.Legible ∧ line.words = words := by
  have below {level : Level} {more : List String} (entered : level ≠ .top)
      (accepted : readWords level {} more = .ok command) :
      ∃ line : Line, line.level = level ∧ line.Legible ∧ line.rest = more :=
    rest_of_readWords (fun _ _ ⟨⟨top, _⟩, _⟩ => entered top) rfl accepted
  by_cases enters : ∃ word ∈ words.head?, Enters .top {} word
  · obtain ⟨word, front, -, named⟩ := enters
    obtain ⟨more, rfl⟩ : ∃ more, words = word :: more := List.head?_eq_some_iff.mp front
    by_cases run : word = "run"
    · subst run
      have entered : Level.run ≠ .top := nofun
      obtain ⟨line, level, legible, rfl⟩ := below entered accepted
      exact ⟨line, legible, by rw [Line.words, level]; rfl⟩
    by_cases tail : word = "tail"
    · subst tail
      have entered : Level.tail ≠ .top := nofun
      obtain ⟨line, level, legible, rfl⟩ := below entered accepted
      exact ⟨line, legible, by rw [Line.words, level]; rfl⟩
    have help : word = helpWord := by simpa [commandNamed?, run, tail] using named
    subst help
    contradiction
  · have inside : ∀ word ∈ words.head?, ¬ Enters .top {} word := fun word front entered =>
      enters ⟨word, front, entered⟩
    obtain ⟨line, level, legible, rfl⟩ := rest_of_readWords inside rfl accepted
    exact ⟨line, legible, by rw [Line.words, level]; rfl⟩

end Sound

section Unique

theorem words_append_ne_closing (o : Occurrence) (behind : List String) (closed : Bool) :
    o.words ++ behind ≠ if closed then ["--"] else [] := by
  obtain ⟨first, more, words, front⟩ := o.words_front
  rw [words]
  cases closed with
  | false => nofun
  | true =>
    intro same
    have first_same : first = "--" := (List.cons.inj same).1
    have dashes : Word.read first = .dashes := first_same ▸ rfl
    obtain ⟨opt, value, spelling⟩ := o
    cases spelling <;> simp [Occurrence.front, dashes] at front

theorem options_inj {level : Level} {options options' : List Occurrence} {closed closed' : Bool}
    (legible : Line.Legible ⟨level, options, closed⟩)
    (legible' : Line.Legible ⟨level, options', closed'⟩)
    (same : Line.rest ⟨level, options, closed⟩ = Line.rest ⟨level, options', closed'⟩) :
    options = options' ∧ closed = closed' := by
  induction options generalizing options' with
  | nil =>
    cases options' with
    | nil => cases closed <;> cases closed' <;> simp_all [Line.rest]
    | cons o' options' =>
      rw [rest_cons] at same
      exact absurd same.symm (words_append_ne_closing o' _ closed)
  | cons o options ih =>
    obtain ⟨⟨-, readable⟩, legible⟩ := List.forall_mem_cons.mp legible
    rw [rest_cons] at same
    cases options' with
    | nil => exact absurd same (words_append_ne_closing o _ closed')
    | cons o' options' =>
      obtain ⟨⟨-, readable'⟩, legible'⟩ := List.forall_mem_cons.mp legible'
      rw [rest_cons] at same
      obtain ⟨rfl, rests⟩ := Occurrence.words_append_inj readable readable' same
      obtain ⟨rfl, rfl⟩ := ih legible legible' rests
      exact ⟨rfl, rfl⟩

theorem rest_head (line : Line) : ∀ word ∈ line.rest.head?, Word.read word ≠ .plain := by
  obtain ⟨level, options, closed⟩ := line
  intro word front
  cases options with
  | nil =>
    cases closed with
    | false => contradiction
    | true =>
      cases front
      decide
  | cons o options =>
    obtain ⟨first, more, words, taken⟩ := o.words_front
    rw [Line.rest, List.flatMap_cons, words] at front
    cases front
    rw [taken]
    obtain ⟨opt, value, spelling⟩ := o
    cases spelling <;> nofun

theorem level_of_words (line : Line) :
    (line.words.head?.bind commandNamed?).getD .top = line.level := by
  obtain ⟨level, options, closed⟩ := line
  cases level with
  | run | tail => rfl
  | top =>
    have unnamed : (Line.rest ⟨.top, options, closed⟩).head?.bind commandNamed? = none := by
      refine Option.bind_eq_none_iff.mpr fun word front => ?_
      refine Option.not_isSome_iff_eq_none.mp fun named => ?_
      exact rest_head _ word front ((read_plain_iff word).mpr (command_plain (.inl named)))
    exact congrArg (Option.getD · .top) unnamed

theorem line_inj {line other : Line} (legible : line.Legible) (legible' : other.Legible)
    (same : line.words = other.words) : line = other := by
  have level : line.level = other.level := by
    rw [← level_of_words line, ← level_of_words other, same]
  obtain ⟨level, options, closed⟩ := line
  obtain ⟨level', options', closed'⟩ := other
  cases level
  have rest := List.append_cancel_left same
  obtain ⟨rfl, rfl⟩ := options_inj legible legible' rest
  rfl

end Unique

section Stray

theorem readWords_stray {level : Level} {options : List Occurrence}
    (legible : ∀ o ∈ options, o.opt ∈ level.options ∧ o.Legible) {word : String}
    (plain : Plain word) {state : State} (seen : state.seen = true) (idle : state.waiting = none)
    (more : List String) (command : Command) :
    readWords level state (options.flatMap Occurrence.words ++ word :: more) ≠ .ok command := by
  induction options generalizing state with
  | nil =>
    have inside : ¬ Enters level state word := not_enters_of_seen seen level word
    rw [List.flatMap_nil, List.nil_append, readWords_cons inside, (read_plain_iff word).mpr plain,
      idle]
    nofun
  | cons o options ih =>
    obtain ⟨⟨known, value⟩, legible⟩ := List.forall_mem_cons.mp legible
    rw [List.flatMap_cons, List.append_assoc, readWords_occurrence known value]
    intro accepted
    obtain ⟨after, taken, accepted⟩ := (bind_ok_iff _ _ _).mp accepted
    obtain ⟨seen, idle⟩ := take_ok taken
    exact ih legible seen idle accepted

theorem read_stray {options : List Occurrence} (some_ : options ≠ [])
    (legible : ∀ o ∈ options, o.opt ∈ Level.top.options ∧ o.Legible) {word : String}
    (plain : Plain word) (more : List String) (command : Command) :
    read (options.flatMap Occurrence.words ++ word :: more) ≠ .ok command := by
  cases options with
  | nil => exact absurd rfl some_
  | cons o options =>
    obtain ⟨⟨known, value⟩, legible⟩ := List.forall_mem_cons.mp legible
    rw [read, List.flatMap_cons, List.append_assoc, readWords_occurrence known value]
    intro accepted
    obtain ⟨after, taken, accepted⟩ := (bind_ok_iff _ _ _).mp accepted
    obtain ⟨seen, idle⟩ := take_ok taken
    exact readWords_stray legible plain seen idle more command accepted

end Stray

section Place

theorem words_cases (o : Occurrence) : ∃ first, Word.read first ≠ .plain ∧
    (o.words = [first] ∨ o.Apart ∧ o.words = [first, o.value]) := by
  obtain ⟨first, behind, words, front⟩ := o.words_front
  refine ⟨first, front ▸ o.front_ne_plain, ?_⟩
  obtain ⟨opt, value, spelling⟩ := o
  cases spelling with
  | long =>
    cases words
    exact .inr ⟨.inl rfl, rfl⟩
  | short =>
    cases words
    exact .inr ⟨.inr rfl, rfl⟩
  | longEquals | shortAttached | shortEquals =>
    cases words
    exact .inl rfl

theorem plain_in_rest {line : Line} {front behind : List String} {word : String}
    (plain : Word.read word = .plain) (same : line.rest = front ++ word :: behind) :
    ∃ o ∈ line.options, ∃ before,
      o.Apart ∧ o.value = word ∧ front ++ [word] = before ++ o.words := by
  obtain ⟨level, options, closed⟩ := line
  induction options generalizing front with
  | nil =>
    have member : word ∈ Line.rest ⟨level, [], closed⟩ := by simp [same]
    have dashes : word = "--" := by
      cases closed with
      | false => contradiction
      | true => exact List.mem_singleton.mp member
    rw [dashes] at plain
    contradiction
  | cons o options ih =>
    have later {front' : List String}
        (same : Line.rest ⟨level, options, closed⟩ = front' ++ word :: behind) :
        ∃ other ∈ o :: options, ∃ before,
          other.Apart ∧ other.value = word ∧ o.words ++ front' ++ [word] = before ++ other.words := by
      obtain ⟨other, member, before, apart, value, place⟩ := ih same
      refine ⟨other, List.mem_cons_of_mem o member, o.words ++ before, apart, value, ?_⟩
      rw [List.append_assoc, place, List.append_assoc]
    obtain ⟨first, option, words⟩ := words_cases o
    rw [rest_cons] at same
    cases front with
    | nil =>
      have head : first = word := by
        rcases words with words | ⟨-, words⟩ <;> rw [words] at same <;> exact (List.cons.inj same).1
      exact absurd plain (head ▸ option)
    | cons head front =>
      rcases words with words | ⟨apart, words⟩
      · simp only [words, List.cons_append, List.nil_append, List.cons.injEq] at same later
        obtain ⟨rfl, tail⟩ := same
        exact later tail
      · cases front with
        | nil =>
          simp only [words, List.cons_append, List.nil_append, List.cons.injEq] at same
          obtain ⟨rfl, value, -⟩ := same
          exact ⟨o, List.mem_cons_self, [], apart, value, by rw [words, value]; rfl⟩
        | cons second front =>
          simp only [words, List.cons_append, List.nil_append, List.cons.injEq] at same later
          obtain ⟨rfl, rfl, tail⟩ := same
          exact later tail

theorem command_place {line : Line} {front behind : List String} {word : String}
    (named : (commandNamed? word).isSome) (same : line.words = front ++ word :: behind) :
    front = [] ∨ ∃ o ∈ line.options, ∃ before,
      o.Apart ∧ o.value = word ∧ front ++ [word] = before ++ o.words := by
  have plain : Word.read word = .plain := (read_plain_iff word).mpr (command_plain (.inl named))
  have below {entry : String} (same : entry :: line.rest = front ++ word :: behind) :
      front = [] ∨ ∃ o ∈ line.options, ∃ before,
        o.Apart ∧ o.value = word ∧ front ++ [word] = before ++ o.words := by
    cases front with
    | nil => exact .inl rfl
    | cons head front =>
      obtain ⟨rfl, tail⟩ := List.cons.inj same
      obtain ⟨o, member, before, apart, value, place⟩ := plain_in_rest plain tail
      exact .inr ⟨o, member, entry :: before, apart, value, congrArg (entry :: ·) place⟩
  rw [Line.words] at same
  cases level : line.level with
  | top =>
    rw [level] at same
    exact .inr (plain_in_rest plain same)
  | run | tail =>
    rw [level] at same
    exact below same

end Place

/-- The lists of words that are read to a command are the lines that ask for it, and each list is one line
    only. In such a list the name of a command comes first or is the value of an option, so no option
    stands in front of a command word. -/
theorem read_accounts :
    (∀ words command, read words = .ok command ↔
      ∃ line : Line, line.Legible ∧ line.words = words ∧ line.Asks command) ∧
    (∀ line other : Line, line.Legible → other.Legible → line.words = other.words →
      line = other) ∧
    (∀ front word behind command, (commandNamed? word).isSome →
      read (front ++ word :: behind) = .ok command → front = [] ∨ ∃ o : Occurrence, ∃ before,
        o.Apart ∧ o.value = word ∧ front ++ [word] = before ++ o.words) ∧
    ∀ options : List Occurrence, options ≠ [] →
      (∀ o ∈ options, o.opt ∈ Level.run.options ∧ o.Legible) →
      ∀ word more command, (commandNamed? word).isSome →
        read (options.flatMap Occurrence.words ++ word :: more) ≠ .ok command := by
  refine ⟨fun words command => ⟨fun accepted => ?_, ?_⟩, fun _ _ => line_inj, ?_, ?_⟩
  · obtain ⟨line, legible, rfl⟩ := line_of_read accepted
    exact ⟨line, legible, rfl, (read_line_iff legible command).mp accepted⟩
  · rintro ⟨line, legible, rfl, asks⟩
    exact (read_line_iff legible command).mpr asks
  · intro front word behind command named accepted
    obtain ⟨line, -, same⟩ := line_of_read accepted
    refine (command_place named same).imp id ?_
    rintro ⟨o, -, place⟩
    exact ⟨o, place⟩
  · intro options some_ legible word more command named
    exact read_stray some_ legible (command_plain (.inl named)) more command

/-- A value may be named like a command; behind a value the name of a command is refused. -/
theorem read_accounts_named_value :
    read ["-e", "tail", "--"] = .ok (.run ⟨Settings.defaultSource, "tail", defaultDelay, defaultWarmup⟩) ∧
      ∀ command, read ["-e", "feed", "tail", "-l", "1"] ≠ .ok command := by
  have plain : Plain "tail" ∧ Plain "feed" := ⟨.inr (by decide), .inr (by decide)⟩
  constructor
  · let line : Line := ⟨.top, [⟨.endpoint, "tail", .short⟩], true⟩
    refine (read_accounts.1 _ _).mpr ⟨line, ?_, rfl, rfl, ?_, ?_⟩
    · exact List.forall_mem_singleton.mpr ⟨by decide, plain.1⟩
    · exact List.pairwise_singleton _ _
    · refine ⟨List.forall_mem_singleton.mpr ⟨.text "tail", rfl, rfl⟩, fun opt known missing => ?_⟩
      cases opt with
      | endpoint => exact absurd (List.mem_singleton.mpr rfl) missing
      | delay =>
        rw [Opt.absent, ← defaultDelay_eq]
        rfl
      | warmup =>
        rw [Opt.absent, ← defaultWarmup_eq]
        rfl
      | file | symbol | limit => rfl
  · intro command
    exact read_accounts.2.2.2 [⟨.endpoint, "feed", .short⟩] (by decide)
      (List.forall_mem_singleton.mpr ⟨by decide, plain.2⟩) "tail" ["-l", "1"] command (by decide)

example : read ["tail", "-l12", "--symbol=A"] =
    .ok (.tail ⟨"tcp://127.0.0.1:5555", some "A", some 12⟩) := rfl

example : (read ["run", "-d-2.5e-1", "--file=a.csv"]).toOption =
    some (.run ⟨"a.csv", "tcp://127.0.0.1:5555", .ofCode true 0x3fd0000000000000, defaultWarmup⟩) := by
  decide +kernel

end TickReplay.CommandLine
