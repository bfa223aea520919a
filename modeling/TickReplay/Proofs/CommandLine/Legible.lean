import TickReplay.Proofs.CommandLine.Occurrence

/- Finding the occurrences in a list of words. Where the reader accepts the words at all, they begin with
   an occurrence or are the two dashes at the end, and no other occurrence fits the same words. -/
namespace TickReplay.CommandLine

theorem readLong_eq {cs : List Char} {name : String} {value : Option String}
    (front : readLong cs = .long name value) :
    cs = name.toList ++ value.elim [] fun text => '=' :: text.toList := by
  have parts := List.takeWhile_append_dropWhile (p := (· != '=')) (l := cs)
  rw [readLong] at front
  split at front
  · cases front
    simp
  · next c text cut =>
    have equals : c = '=' := by
      have head := List.head?_dropWhile_not (· != '=') cs
      simpa [cut] using head
    cases front
    rw [cut, equals] at parts
    simp [parts]

theorem word_of_dashes {word : String} (front : Word.read word = .dashes) : word = "--" := by
  rw [Word.read] at front
  split at front
  · next dashes => exact String.toList_inj.mp dashes
  · rw [readLong] at front
    split at front <;> contradiction
  · contradiction
  · contradiction

theorem word_of_long {word name : String} {value : Option String}
    (front : Word.read word = .long name value) :
    word = value.elim s!"--{name}" fun text => s!"--{name}={text}" := by
  rw [Word.read] at front
  split at front
  · contradiction
  · next dashes =>
    rw [← String.toList_inj, dashes, readLong_eq front]
    cases value <;> simp [toString]
  · contradiction
  · contradiction

theorem word_of_short {word : String} {letter : Char} {rest : List Char}
    (front : Word.read word = .short letter rest) : word = s!"-{letter}{String.ofList rest}" := by
  rw [Word.read] at front
  split at front
  · contradiction
  · rw [readLong] at front
    split at front <;> contradiction
  · next dash =>
    cases front
    rw [← String.toList_inj, dash]
    simp [toString]
  · contradiction

section Accepted

variable {level : Level} {state after : State} {command : Command}

theorem begins_of_long {name : String} {value : Option String}
    (begun : state.long level name value = .ok after) :
    ∃ opt ∈ level.options, Begins opt (.long name value) value ∧
      state.begin opt value = .ok after := by
  unfold State.long at begun
  split at begun
  · next opt found =>
    have same : opt.name = name := by simpa using List.find?_some found
    exact ⟨opt, List.mem_of_find?_eq_some found, same ▸ .long value, begun⟩
  · generalize level.flags.find? _ = flag at begun
    cases flag <;> cases value <;> contradiction

theorem begins_of_short {letter : Char} {rest : List Char}
    (begun : state.short level letter rest = .ok after) :
    ∃ opt ∈ level.options, Begins opt (.short letter rest) (attached rest) ∧
      state.begin opt (attached rest) = .ok after := by
  rw [State.short] at begun
  split at begun
  · next opt found =>
    have same : opt.letter = letter := by simpa using List.find?_some found
    exact ⟨opt, List.mem_of_find?_eq_some found, same ▸ .short rest, begun⟩
  · split at begun <;> contradiction

/-- What an accepted word can be behind the command word: the closing dashes, a value that was waited for,
    or the beginning of an option. -/
inductive Accepted (level : Level) (state : State) (command : Command) :
    String → List String → Prop where
  | closed {given : Given} (settled : state.settled = .ok given) :
      Accepted level state command "--" []
  | value {word : String} {more : List String} {opt : Opt} (plain : Plain word)
      (waits : state.waiting = some opt) : Accepted level state command word more
  | option {word : String} {more : List String} {opt : Opt} {value : Option String} {after : State}
      (known : opt ∈ level.options) (begins : Begins opt (Word.read word) value)
      (begun : state.begin opt value = .ok after)
      (rest : readWords level after more = .ok command) : Accepted level state command word more

theorem accepted_of_readWords {word : String} {more : List String}
    (inside : ¬ Enters level state word)
    (read : readWords level state (word :: more) = .ok command) :
    Accepted level state command word more := by
  rw [readWords_cons inside] at read
  cases front : Word.read word with
  | dashes =>
    rw [front] at read
    cases more with
    | cons _ _ => contradiction
    | nil =>
      obtain ⟨given, settled, -⟩ := (bind_ok_iff _ _ _).mp read
      rw [word_of_dashes front]
      exact .closed settled
  | plain =>
    rw [front] at read
    cases waits : state.waiting with
    | none =>
      rw [waits] at read
      contradiction
    | some opt => exact .value ((read_plain_iff word).mp front) waits
  | long name value =>
    rw [front] at read
    obtain ⟨after, begun, rest⟩ := (bind_ok_iff _ _ _).mp read
    obtain ⟨opt, known, begins, begun⟩ := begins_of_long begun
    exact .option known (front ▸ begins) begun rest
  | short letter tail =>
    rw [front] at read
    obtain ⟨after, begun, rest⟩ := (bind_ok_iff _ _ _).mp read
    obtain ⟨opt, known, begins, begun⟩ := begins_of_short begun
    exact .option known (front ▸ begins) begun rest

theorem value_of_readWords {opt : Opt} {words : List String}
    (begun : state.begin opt none = .ok after) (read : readWords level after words = .ok command) :
    ∃ value more, words = value :: more ∧ Plain value := by
  obtain ⟨given, -, begun⟩ := (bind_ok_iff _ _ _).mp begun
  cases begun
  cases words with
  | nil => contradiction
  | cons word more =>
    have inside : ¬ Enters level ⟨given, some ⟨opt, none⟩, true⟩ word := nofun
    cases accepted_of_readWords inside read with
    | closed settled => contradiction
    | value plain waits => exact ⟨word, more, rfl, plain⟩
    | option known begins begun rest => contradiction

theorem occurrence_of_readWords {word : String} {more : List String}
    (inside : ¬ Enters level state word) (idle : state.waiting = none)
    (read : readWords level state (word :: more) = .ok command) :
    (word = "--" ∧ more = []) ∨ ∃ o : Occurrence, ∃ rest,
      (o.opt ∈ level.options ∧ o.Legible) ∧ word :: more = o.words ++ rest := by
  cases accepted_of_readWords inside read with
  | closed settled => exact .inl ⟨rfl, rfl⟩
  | value plain waits =>
    rw [idle] at waits
    contradiction
  | @option _ _ opt value after known begins begun rest =>
    right
    generalize front : Word.read word = taken at begins
    cases begins with
    | long =>
      have text := word_of_long front
      cases value with
      | some value => exact ⟨⟨opt, value, .longEquals⟩, more, ⟨known, trivial⟩, text ▸ rfl⟩
      | none =>
        obtain ⟨value, tail, rfl, plain⟩ := value_of_readWords begun rest
        exact ⟨⟨opt, value, .long⟩, tail, ⟨known, plain⟩, text ▸ rfl⟩
    | short attachment =>
      have text := word_of_short front
      match attachment with
      | [] =>
        obtain ⟨value, tail, rfl, plain⟩ := value_of_readWords begun rest
        refine ⟨⟨opt, value, .short⟩, tail, ⟨known, plain⟩, ?_⟩
        rw [text]
        simp [Occurrence.words, toString]
      | c :: cs =>
        by_cases equals : c = '='
        · refine ⟨⟨opt, String.ofList cs, .shortEquals⟩, more, ⟨known, trivial⟩, ?_⟩
          rw [text, equals]
          simp [Occurrence.words, toString, ← String.toList_inj]
        · have legible : Occurrence.Legible ⟨opt, String.ofList (c :: cs), .shortAttached⟩ := by
            simp [Occurrence.Legible, equals, ← String.toList_inj]
          exact ⟨_, more, ⟨known, legible⟩, text ▸ rfl⟩

theorem take_ok {o : Occurrence} (taken : state.take o = .ok after) :
    after.seen = true ∧ after.waiting = none := by
  obtain ⟨given, -, rest⟩ := (bind_ok_iff _ _ _).mp taken
  obtain ⟨opt, value, spelling⟩ := o
  cases spelling with
  | long | short =>
    cases rest
    exact ⟨rfl, rfl⟩
  | longEquals | shortAttached | shortEquals =>
    obtain ⟨given, -, rest⟩ := (bind_ok_iff _ _ _).mp rest
    cases rest
    exact ⟨rfl, rfl⟩

end Accepted

namespace Occurrence

def front (o : Occurrence) : Word :=
  match o.spelling with
  | .long => .long o.opt.name none
  | .longEquals => .long o.opt.name (some o.value)
  | .short => .short o.opt.letter []
  | .shortAttached => .short o.opt.letter o.value.toList
  | .shortEquals => .short o.opt.letter ('=' :: o.value.toList)

theorem words_front (o : Occurrence) :
    ∃ first behind, o.words = first :: behind ∧ Word.read first = o.front := by
  obtain ⟨opt, value, spelling⟩ := o
  cases spelling with
  | long => exact ⟨_, _, rfl, read_long opt⟩
  | longEquals => exact ⟨_, _, rfl, read_long_equals opt value⟩
  | short => exact ⟨_, _, rfl, read_short opt⟩
  | shortAttached => exact ⟨_, _, rfl, read_short_attached opt value⟩
  | shortEquals => exact ⟨_, _, rfl, read_short_equals opt value⟩

theorem front_ne_plain (o : Occurrence) : o.front ≠ .plain := by
  obtain ⟨opt, value, spelling⟩ := o
  cases spelling <;> nofun

def spellingOf : Word → Spelling
  | .long _ (some _) => .longEquals
  | .short _ [] => .short
  | .short _ (c :: _) => if c = '=' then .shortEquals else .shortAttached
  | _ => .long

theorem spellingOf_front {o : Occurrence} (legible : o.Legible) : spellingOf o.front = o.spelling := by
  obtain ⟨opt, value, spelling⟩ := o
  cases spelling with
  | shortAttached =>
    obtain ⟨some_, head⟩ := legible
    simp only [front]
    cases letters : value.toList with
    | nil => exact absurd (String.toList_eq_nil_iff.mp letters) some_
    | cons c cs =>
      have other : c ≠ '=' := by simpa [letters] using head
      exact if_neg other
  | _ => rfl

theorem front_inj {o other : Occurrence} (spelling : o.spelling = other.spelling)
    (same : o.front = other.front) : o.opt = other.opt := by
  obtain ⟨opt, value, way⟩ := o
  obtain ⟨opt', value', way'⟩ := other
  cases spelling
  cases way <;> cases opt <;> cases opt' <;> simp_all [front, Opt.name, Opt.letter]

theorem words_append_inj {o other : Occurrence} (legible : o.Legible) (legible' : other.Legible)
    {rest rest' : List String} (same : o.words ++ rest = other.words ++ rest') :
    o = other ∧ rest = rest' := by
  obtain ⟨first, behind, words, front⟩ := o.words_front
  obtain ⟨first', behind', words', front'⟩ := other.words_front
  have fronts : o.front = other.front := by
    rw [words, words'] at same
    rw [← front, ← front', (List.cons.inj same).1]
  have spelling : o.spelling = other.spelling := by
    rw [← spellingOf_front legible, ← spellingOf_front legible', fronts]
  have opt := front_inj spelling fronts
  clear words words'
  obtain ⟨opt, value, way⟩ := o
  obtain ⟨opt', value', way'⟩ := other
  cases spelling
  cases opt
  have parts : value = value' ∧ rest = rest' := by
    cases way <;> simpa [Occurrence.words, toString] using same
  exact ⟨by rw [parts.1], parts.2⟩

end Occurrence

end TickReplay.CommandLine
