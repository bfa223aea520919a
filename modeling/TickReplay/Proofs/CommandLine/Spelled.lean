import TickReplay.Proofs.CommandLine.Line

/- What a line asks for hangs on the values of its options only: not on their order, not on the way in
   which each is written, and for the options of a run not on the word in front of them. -/
namespace TickReplay.CommandLine

structure Ordinary (text : String) : Prop where
  some_ : text ≠ ""
  hyphen : text.toList.head? ≠ some '-'
  equals : text.toList.head? ≠ some '='

structure Spells (options : List Occurrence) (texts : Opt → Option String) : Prop where
  once : (options.map Occurrence.opt).Nodup
  same : ∀ opt text, texts opt = some text ↔ ∃ o ∈ options, o.opt = opt ∧ o.value = text

structure Level.Takes (level : Level) (texts : Opt → Option String) : Prop where
  known : ∀ opt text, texts opt = some text → opt ∈ level.options
  ordinary : ∀ opt text, texts opt = some text → Ordinary text
  readable : ∀ opt text, texts opt = some text → ∃ value, opt.value? text = some value

def Command.HasValues (command : Command) (texts : Opt → Option String) : Prop :=
  ∀ opt ∈ command.level.options, command.value? opt = (texts opt).elim opt.absent opt.value?

section

variable {level : Level} {texts : Opt → Option String} {options : List Occurrence}

theorem Ordinary.legible {o : Occurrence} (ordinary : Ordinary o.value) : o.Legible := by
  obtain ⟨opt, value, spelling⟩ := o
  cases spelling with
  | long | short => exact .inr ordinary.hyphen
  | shortAttached => exact ⟨ordinary.some_, ordinary.equals⟩
  | longEquals | shortEquals => trivial

theorem Spells.text (spells : Spells options texts) {o : Occurrence} (member : o ∈ options) :
    texts o.opt = some o.value :=
  (spells.same o.opt o.value).mpr ⟨o, member, rfl, rfl⟩

theorem Spells.legible (spells : Spells options texts) (takes : level.Takes texts) :
    ∀ o ∈ options, o.opt ∈ level.options ∧ o.Legible := by
  intro o member
  have text := spells.text member
  exact ⟨takes.known o.opt o.value text, (takes.ordinary o.opt o.value text).legible⟩

theorem Spells.values (spells : Spells options texts) {command : Command}
    (holds : command.Holds options) : command.HasValues texts := by
  intro opt known
  cases given : texts opt with
  | some text =>
    obtain ⟨o, member, rfl, rfl⟩ := (spells.same opt text).mp given
    obtain ⟨value, readable, held⟩ := holds.given o member
    exact held.trans readable.symm
  | none =>
    refine holds.absent opt known fun member => ?_
    obtain ⟨o, inside, rfl⟩ := List.mem_map.mp member
    rw [spells.text inside] at given
    contradiction

def spelled (level : Level) (texts : Opt → Option String) : List Occurrence :=
  level.options.filterMap fun opt => (texts opt).map fun text => ⟨opt, text, .longEquals⟩

theorem level_options_nodup (level : Level) : level.options.Nodup := by
  cases level <;> decide

theorem mem_spelled {o : Occurrence} : o ∈ spelled level texts ↔
    o.opt ∈ level.options ∧ texts o.opt = some o.value ∧ o.spelling = .longEquals := by
  constructor
  · intro member
    obtain ⟨opt, known, made⟩ := List.mem_filterMap.mp member
    obtain ⟨text, given, rfl⟩ := Option.map_eq_some_iff.mp made
    exact ⟨known, given, rfl⟩
  · obtain ⟨opt, text, spelling⟩ := o
    rintro ⟨known, given, rfl⟩
    exact List.mem_filterMap.mpr ⟨opt, known, by rw [given]; rfl⟩

theorem spells_spelled (takes : level.Takes texts) : Spells (spelled level texts) texts := by
  constructor
  case once =>
    refine List.pairwise_map.mpr (List.pairwise_filterMap.mpr ?_)
    refine (level_options_nodup level).imp fun apart o given o' given' => ?_
    obtain ⟨text, -, rfl⟩ := Option.map_eq_some_iff.mp given
    obtain ⟨text', -, rfl⟩ := Option.map_eq_some_iff.mp given'
    exact apart
  case same =>
    intro opt text
    constructor
    · intro given
      have member : ⟨opt, text, .longEquals⟩ ∈ spelled level texts :=
        mem_spelled.mpr ⟨takes.known opt text given, given, rfl⟩
      exact ⟨_, member, rfl, rfl⟩
    · rintro ⟨o, member, rfl, rfl⟩
      exact (mem_spelled.mp member).2.1

theorem read_bare (legible : ∀ o ∈ options, o.opt ∈ Level.run.options ∧ o.Legible) :
    read (options.flatMap Occurrence.words) = read ("run" :: options.flatMap Occurrence.words) := by
  have bare := readWords_rest (show Line.Legible ⟨.top, options, false⟩ from legible) {}
  have run := readWords_rest (show Line.Legible ⟨.run, options, false⟩ from legible) {}
  simp only [Line.rest, if_neg Bool.false_ne_true, List.append_nil] at bare run
  exact bare.trans run.symm

theorem Spells.read_command (spells : Spells options texts) (takes : level.Takes texts) :
    ∃ command : Command, command.level = level.named ∧ command.HasValues texts ∧
      read (level.word ++ options.flatMap Occurrence.words) = .ok command := by
  let line : Line := ⟨level, options, false⟩
  have legible : line.Legible := spells.legible takes
  have readable : ∀ o ∈ options, ∃ value, o.opt.value? o.value = some value := fun o member =>
    takes.readable o.opt o.value (spells.text member)
  obtain ⟨command, asks⟩ : ∃ command, line.Asks command :=
    asks_of_readable (fun o member => (legible o member).1) spells.once readable
  have accepted := (read_line_iff legible command).mpr asks
  refine ⟨command, asks.level, spells.values asks.holds, ?_⟩
  rwa [Line.words, Line.rest, if_neg Bool.false_ne_true, List.append_nil] at accepted

theorem hasValues_unique {command other : Command} (level : command.level = other.level)
    (values : command.HasValues texts) (values' : other.HasValues texts) : command = other :=
  Command.ext_value level fun opt known =>
    (values opt known).trans (values' opt (level ▸ known)).symm

end

/-- Texts for some of the options of a command lead to one command that holds their values and the defaults
    of the other options, in whatever order and way they are written; for a run, also without its word. -/
theorem read_spelled {level : Level} (entered : level ≠ .top) {texts : Opt → Option String}
    (takes : level.Takes texts) :
    ∃ command : Command, command.level = level ∧ command.HasValues texts ∧
      ∀ options, Spells options texts →
        read (level.word ++ options.flatMap Occurrence.words) = .ok command ∧
        (level = .run → read (options.flatMap Occurrence.words) = .ok command) := by
  have named : level.named = level := by
    cases level with
    | top => contradiction
    | run | tail => rfl
  obtain ⟨command, at_level, values, -⟩ := (spells_spelled takes).read_command takes
  refine ⟨command, at_level.trans named, values, fun options spells => ?_⟩
  obtain ⟨other, at_level', values', accepted⟩ := spells.read_command takes
  cases hasValues_unique (at_level'.trans at_level.symm) values' values
  refine ⟨accepted, ?_⟩
  rintro rfl
  rw [read_bare (spells.legible takes)]
  exact accepted

def namedTexts : Opt → Option String
  | .file => some "tail"
  | .endpoint => some "run"
  | .delay => some "0.5"
  | .warmup => some "1e3"
  | _ => none

theorem read_spelled_named_values :
    ∃ command : Command, command.level = .run ∧
      command.value? .file = some (.text "tail") ∧
      command.value? .endpoint = some (.text "run") ∧
      command.value? .delay = some (.seconds (.ofCode false 0x3fe0000000000000)) ∧
      command.value? .warmup = some (.seconds (.ofCode false 0x408f400000000000)) ∧
      read ["run", "-e", "run", "-d0.5", "--file", "tail", "--warmup=1e3"] = .ok command ∧
      read ["-e", "run", "-d0.5", "--file", "tail", "--warmup=1e3"] = .ok command := by
  have takes : Level.run.Takes namedTexts := by
    refine ⟨fun opt text given => ?_, fun opt text given => ?_, fun opt text given => ?_⟩
    · cases opt <;> first | decide | contradiction
    · cases opt <;> cases given <;> exact ⟨by decide, by decide, by decide⟩
    · refine Option.isSome_iff_exists.mp ?_
      cases opt <;> cases given <;> decide +kernel
  let options : List Occurrence := [⟨.endpoint, "run", .short⟩, ⟨.delay, "0.5", .shortAttached⟩,
    ⟨.file, "tail", .long⟩, ⟨.warmup, "1e3", .longEquals⟩]
  have spells : Spells options namedTexts := by
    refine ⟨by decide, fun opt text => ?_⟩
    cases opt <;> simp [namedTexts, options]
  have run : Level.run ≠ .top := nofun
  obtain ⟨command, level, values, same⟩ := read_spelled run takes
  obtain ⟨accepted, bare⟩ := same options spells
  have held (opt : Opt) (known : opt ∈ Level.run.options) := values opt (level ▸ known)
  have delay : Opt.delay.value? "0.5" = some (.seconds (.ofCode false 0x3fe0000000000000)) := by
    decide +kernel
  have warmup : Opt.warmup.value? "1e3" = some (.seconds (.ofCode false 0x408f400000000000)) := by
    decide +kernel
  exact ⟨command, level, held .file (by decide), held .endpoint (by decide),
    (held .delay (by decide)).trans delay, (held .warmup (by decide)).trans warmup, accepted,
    bare rfl⟩

end TickReplay.CommandLine
