import TickReplay.Proofs.CommandLine.Occurrence

/- What the options of a line amount to. A value is given once, under its own option; a command holds the
   values given and the defaults of its other options. -/
namespace TickReplay.CommandLine

inductive Value where
  | text (text : String)
  | seconds (x : Binary64)
  | count (n : Nat)
  deriving DecidableEq, Repr

def Opt.value? : Opt → String → Option Value
  | .file, text => if text.isEmpty then none else some (.text text)
  | .endpoint, text | .symbol, text => some (.text text)
  | .delay, text | .warmup, text => (Decimal.readLiteral text.toList).toOption.map .seconds
  | .limit, text => (Text.readCount 18446744073709551615 text.toList).toOption.map .count

/-- A hundredth of a second between sends, and one second in front of them. -/
def Opt.absent : Opt → Option Value
  | .file => some (.text (Settings.manifestDirectory ++ "/data/sample_ticks.csv"))
  | .endpoint => some (.text "tcp://127.0.0.1:5555")
  | .delay => some (.seconds (.ofCode false 0x3f847ae147ae147b))
  | .warmup => some (.seconds (.ofCode false 0x3ff0000000000000))
  | .symbol | .limit => none

def Given.value? (given : Given) : Opt → Option Value
  | .file => given.file.map .text
  | .endpoint => given.endpoint.map .text
  | .delay => given.delay.map .seconds
  | .warmup => given.warmup.map .seconds
  | .symbol => given.symbol.map .text
  | .limit => given.limit.map .count

def Command.value? : Command → Opt → Option Value
  | .run args, .file => some (.text args.file)
  | .run args, .endpoint => some (.text args.endpoint)
  | .run args, .delay => some (.seconds args.delay)
  | .run args, .warmup => some (.seconds args.warmup)
  | .tail options, .endpoint => some (.text options.endpoint)
  | .tail options, .symbol => options.symbol.map .text
  | .tail options, .limit => options.limit.map .count
  | _, _ => none

def Command.level : Command → Level
  | .run _ => .run
  | .tail _ => .tail

namespace Given

theorem value?_empty (opt : Opt) : value? {} opt = none := by
  cases opt <;> rfl

theorem readReal_ok_iff (opt : Opt) (text : String) (x : Binary64) :
    readReal opt text = .ok x ↔ Decimal.readLiteral text.toList = .ok x := by
  rw [readReal]
  cases Decimal.readLiteral text.toList <;> simp

theorem readLimit_ok_iff (text : String) (n : Nat) :
    readLimit text = .ok n ↔ Text.readCount 18446744073709551615 text.toList = .ok n := by
  have largest : countLimit = 18446744073709551615 := rfl
  rw [readLimit, largest]
  cases Text.readCount 18446744073709551615 text.toList <;> simp

theorem set_ok {given after : Given} {opt : Opt} {text : String}
    (stored : given.set opt text = .ok after) :
    ∃ value, opt.value? text = some value ∧
      ∀ other, after.value? other = if other = opt then some value else given.value? other := by
  cases opt with
  | file =>
    rw [set] at stored
    split at stored
    · contradiction
    · next some_ =>
      cases stored
      refine ⟨.text text, if_neg some_, fun other => ?_⟩
      cases other <;> rfl
  | endpoint | symbol =>
    cases stored
    refine ⟨.text text, rfl, fun other => ?_⟩
    cases other <;> rfl
  | delay | warmup =>
    obtain ⟨x, real, rfl⟩ := (map_ok_iff _ _ _).mp stored
    rw [readReal_ok_iff] at real
    refine ⟨.seconds x, by rw [Opt.value?, real]; rfl, fun other => ?_⟩
    cases other <;> rfl
  | limit =>
    obtain ⟨n, count, rfl⟩ := (map_ok_iff _ _ _).mp stored
    rw [readLimit_ok_iff] at count
    refine ⟨.count n, by rw [Opt.value?, count]; rfl, fun other => ?_⟩
    cases other <;> rfl

theorem set_of_value {opt : Opt} {text : String} {value : Value}
    (readable : opt.value? text = some value) (given : Given) :
    ∃ after, given.set opt text = .ok after := by
  cases opt with
  | file =>
    have some_ : ¬ text.isEmpty := by
      intro empty
      simp [Opt.value?, empty] at readable
    exact ⟨_, if_neg some_⟩
  | endpoint | symbol => exact ⟨_, rfl⟩
  | delay | warmup =>
    obtain ⟨x, real, -⟩ := Option.map_eq_some_iff.mp readable
    rw [toOption_eq_some_iff, ← readReal_ok_iff] at real
    exact ⟨_, (map_ok_iff _ _ _).mpr ⟨x, real, rfl⟩⟩
  | limit =>
    obtain ⟨n, count, -⟩ := Option.map_eq_some_iff.mp readable
    rw [toOption_eq_some_iff, ← readLimit_ok_iff] at count
    exact ⟨_, (map_ok_iff _ _ _).mpr ⟨n, count, rfl⟩⟩

theorem not_has_iff (given : Given) (opt : Opt) : ¬ given.has opt ↔ given.value? opt = none := by
  cases opt <;> simp [has, value?]

theorem give_ok {given after : Given} {o : Occurrence} (settled : given.give o = .ok after) :
    given.value? o.opt = none ∧ ∃ value, o.opt.value? o.value = some value ∧
      ∀ opt, after.value? opt = if opt = o.opt then some value else given.value? opt := by
  rw [give, settle] at settled
  split at settled
  · contradiction
  · next free => exact ⟨(given.not_has_iff o.opt).mp free, set_ok settled⟩

theorem give_of_value {given : Given} {o : Occurrence} {value : Value}
    (fresh : given.value? o.opt = none) (readable : o.opt.value? o.value = some value) :
    ∃ after, given.give o = .ok after := by
  rw [give, settle, if_neg ((given.not_has_iff o.opt).mpr fresh)]
  exact set_of_value readable given

/-- What giving occurrences one after another makes of the values given before. -/
structure Gathers (before : Given) (options : List Occurrence) (after : Given) : Prop where
  once : (options.map Occurrence.opt).Nodup
  fresh : ∀ o ∈ options, before.value? o.opt = none
  held : ∀ o ∈ options, ∃ value, o.opt.value? o.value = some value ∧ after.value? o.opt = some value
  kept : ∀ opt ∉ options.map Occurrence.opt, after.value? opt = before.value? opt

theorem gathers_nil (given : Given) : Gathers given [] given :=
  ⟨List.nodup_nil, nofun, nofun, fun _ _ => rfl⟩

theorem Gathers.cons {before middle after : Given} {o : Occurrence} {options : List Occurrence}
    (settled : before.give o = .ok middle) (gathers : Gathers middle options after) :
    Gathers before (o :: options) after := by
  obtain ⟨fresh, value, readable, holds⟩ := give_ok settled
  have distinct : o.opt ∉ options.map Occurrence.opt := by
    intro member
    obtain ⟨other, member, same⟩ := List.mem_map.mp member
    have empty := gathers.fresh other member
    rw [holds, if_pos same] at empty
    contradiction
  have held : after.value? o.opt = some value := by
    rw [gathers.kept o.opt distinct, holds, if_pos rfl]
  constructor
  case once => exact List.nodup_cons.mpr ⟨distinct, gathers.once⟩
  case fresh =>
    intro other member
    rcases List.mem_cons.mp member with rfl | member
    · exact fresh
    · have empty := gathers.fresh other member
      rw [holds] at empty
      split at empty
      · contradiction
      · exact empty
  case held =>
    intro other member
    rcases List.mem_cons.mp member with rfl | member
    · exact ⟨value, readable, held⟩
    · exact gathers.held other member
  case kept =>
    intro opt absent
    obtain ⟨apart, absent⟩ := List.ne_and_not_mem_of_not_mem_cons absent
    rw [gathers.kept opt absent, holds, if_neg apart]

theorem gathers_of_foldlM {before after : Given} {options : List Occurrence}
    (settled : options.foldlM give before = .ok after) : Gathers before options after := by
  induction options generalizing before with
  | nil =>
    cases settled
    exact gathers_nil _
  | cons o options ih =>
    rw [List.foldlM_cons, bind_ok_iff] at settled
    obtain ⟨middle, first, rest⟩ := settled
    exact .cons first (ih rest)

theorem foldlM_of_readable {before : Given} {options : List Occurrence}
    (once : (options.map Occurrence.opt).Nodup) (fresh : ∀ o ∈ options, before.value? o.opt = none)
    (readable : ∀ o ∈ options, ∃ value, o.opt.value? o.value = some value) :
    ∃ after, options.foldlM give before = .ok after := by
  induction options generalizing before with
  | nil => exact ⟨before, rfl⟩
  | cons o options ih =>
    obtain ⟨value, text⟩ := readable o List.mem_cons_self
    obtain ⟨middle, first⟩ := give_of_value (fresh o List.mem_cons_self) text
    obtain ⟨-, _, -, holds⟩ := give_ok first
    obtain ⟨distinct, once⟩ := List.nodup_cons.mp once
    have fresh' : ∀ other ∈ options, middle.value? other.opt = none := by
      intro other member
      have apart : other.opt ≠ o.opt := fun same => distinct (same ▸ List.mem_map_of_mem member)
      rw [holds, if_neg apart]
      exact fresh other (List.mem_cons_of_mem o member)
    obtain ⟨after, rest⟩ := ih once fresh' fun other member =>
      readable other (List.mem_cons_of_mem o member)
    exact ⟨after, by rwa [List.foldlM_cons, first]⟩

end Given

def Level.named : Level → Level
  | .top => .run
  | level => level

theorem command_level (given : Given) (level : Level) :
    (given.command level).level = level.named := by
  cases level <;> rfl

theorem named_options (level : Level) : level.named.options = level.options := by
  cases level <;> rfl

theorem defaultDelay_eq : defaultDelay = .ofCode false 0x3f847ae147ae147b := by decide +kernel

theorem defaultWarmup_eq : defaultWarmup = .ofCode false 0x3ff0000000000000 := by decide +kernel

theorem command_value (given : Given) {level : Level} {opt : Opt} (known : opt ∈ level.options) :
    (given.command level).value? opt = (given.value? opt).or opt.absent := by
  have chosen {α : Type} (x : Option α) (a : α) (f : α → Value) :
      some (f (x.getD a)) = (x.map f).or (some (f a)) := by
    cases x <;> rfl
  cases level with
  | top | run =>
    cases opt with
    | symbol | limit => simp [Level.options] at known
    | file | endpoint => exact chosen _ _ _
    | delay =>
      rw [Opt.absent, ← defaultDelay_eq]
      exact chosen _ _ _
    | warmup =>
      rw [Opt.absent, ← defaultWarmup_eq]
      exact chosen _ _ _
  | tail =>
    cases opt with
    | file | delay | warmup => simp [Level.options] at known
    | endpoint => exact chosen _ _ _
    | symbol | limit => exact Option.or_none.symm

structure Command.Holds (command : Command) (options : List Occurrence) : Prop where
  given : ∀ o ∈ options, ∃ value,
    o.opt.value? o.value = some value ∧ command.value? o.opt = some value
  absent : ∀ opt ∈ command.level.options, opt ∉ options.map Occurrence.opt →
    command.value? opt = opt.absent

theorem Command.ext_value {command other : Command} (level : command.level = other.level)
    (same : ∀ opt ∈ command.level.options, command.value? opt = other.value? opt) :
    command = other := by
  cases command with
  | run args =>
    cases other with
    | tail _ => contradiction
    | run args' =>
      cases args
      cases args'
      simpa [Command.level, Level.options, value?] using same
  | tail options =>
    cases other with
    | run _ => contradiction
    | tail options' =>
      cases options
      cases options'
      simpa [Command.level, Level.options, value?, Option.map_inj_right] using same

theorem Command.Holds.unique {command other : Command} {options : List Occurrence}
    (level : command.level = other.level) (holds : command.Holds options)
    (holds' : other.Holds options) : command = other := by
  refine ext_value level fun opt known => ?_
  by_cases member : opt ∈ options.map Occurrence.opt
  · obtain ⟨o, given, rfl⟩ := List.mem_map.mp member
    obtain ⟨value, text, held⟩ := holds.given o given
    obtain ⟨value', text', held'⟩ := holds'.given o given
    rw [held, held', ← text, text']
  · rw [holds.absent opt known member, holds'.absent opt (level ▸ known) member]

theorem Given.Gathers.command_holds {options : List Occurrence} {after : Given}
    (gathers : Given.Gathers {} options after) {level : Level}
    (known : ∀ o ∈ options, o.opt ∈ level.options) : (after.command level).Holds options := by
  constructor
  case given =>
    intro o member
    obtain ⟨value, text, held⟩ := gathers.held o member
    exact ⟨value, text, by rw [command_value after (known o member), held]; rfl⟩
  case absent =>
    intro opt known missing
    rw [command_level, named_options] at known
    rw [command_value after known, gathers.kept opt missing, Given.value?_empty]
    rfl

/-- The commands that a sequence of options amounts to: the one that holds their values, if they are
    different options whose texts mean a value. -/
theorem foldlM_command_iff {level : Level} {options : List Occurrence}
    (known : ∀ o ∈ options, o.opt ∈ level.options) (command : Command) :
    (∃ given, options.foldlM Given.give {} = .ok given ∧ given.command level = command) ↔
      command.level = level.named ∧ (options.map Occurrence.opt).Nodup ∧ command.Holds options := by
  constructor
  · rintro ⟨given, settled, rfl⟩
    have gathers := Given.gathers_of_foldlM settled
    exact ⟨command_level given level, gathers.once, gathers.command_holds known⟩
  · rintro ⟨named, once, holds⟩
    have readable : ∀ o ∈ options, ∃ value, o.opt.value? o.value = some value := fun o member =>
      have ⟨value, text, _⟩ := holds.given o member
      ⟨value, text⟩
    obtain ⟨given, settled⟩ := Given.foldlM_of_readable once (fun o _ => Given.value?_empty o.opt)
      readable
    have gathers := Given.gathers_of_foldlM settled
    exact ⟨given, settled, Command.Holds.unique ((command_level given level).trans named.symm)
      (gathers.command_holds known) holds⟩

end TickReplay.CommandLine
