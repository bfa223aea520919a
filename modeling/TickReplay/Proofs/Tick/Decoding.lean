import TickReplay.Proofs.Tick.Grammar

/- A payload decodes to a tick exactly if it is one of its payloads. Drafts are told by the tick and
   the fields that they know of it, so that reading a value adds its field and the way back removes
   it. -/
namespace TickReplay.Tick

open Json (Fault EndsNumeral QuotedText isSpace)

def Draft.part (t : Tick) (known : Field → Bool) : Draft where
  timestamp := if known .timestamp then some t.timestamp else none
  symbol := if known .symbol then some t.symbol else none
  price := if known .price then some t.price else none
  volume := if known .volume then some t.volume else none

def Draft.full (t : Tick) : Draft := .part t fun _ => true

theorem has_part (t : Tick) (known : Field → Bool) (field : Field) :
    (Draft.part t known).has field = known field := by
  have shown {α : Type} (b : Bool) (v : α) : (if b then some v else none).isSome = b := by
    cases b <;> rfl
  cases field <;> exact shown _ _

theorem empty_part (t : Tick) : ({} : Draft) = .part t fun _ => false := by
  simp [Draft.part]

theorem complete_ok_iff (draft : Draft) (t : Tick) : draft.complete = .ok t ↔ draft = .full t := by
  obtain ⟨timestamp, symbol, price, volume⟩ := draft
  cases t
  cases timestamp <;> cases symbol <;> cases price <;> cases volume <;>
    simp [Draft.complete, Draft.full, Draft.part]

theorem read_element {t : Tick} {field : Field} {text : List Char}
    (element : ElementText t field text) (known : Field → Bool) {rest : List Char}
    (stop : EndsNumeral rest) :
    (Draft.part t known).read field (text ++ rest) =
      .ok (.part t fun f => f == field || known f, rest) := by
  cases element with
  | value blank value =>
    rw [List.append_assoc]
    cases field with
    | timestamp =>
      rw [Draft.read, readTimestamp_text blank value stop]
      simp [Except.map, Draft.part]
    | symbol =>
      rw [Draft.read, readSymbol_text blank value]
      simp [Except.map, Draft.part]
    | price =>
      rw [Draft.read, readReal_text blank value stop]
      simp [Except.map, Draft.part]
    | volume =>
      rw [Draft.read, readReal_text blank value stop]
      simp [Except.map, Draft.part]

theorem element_of_value {t : Tick} {field : Field} {cs rest : List Char}
    (found : ∃ gap text, Blank gap ∧ ValueText t field text ∧ cs = gap ++ (text ++ rest)) :
    ∃ text, ElementText t field text ∧ cs = text ++ rest := by
  obtain ⟨gap, text, blank, value, rfl⟩ := found
  exact ⟨gap ++ text, .value blank value, by rw [List.append_assoc]⟩

theorem element_of_read {t : Tick} {draft : Draft} {field : Field} {known : Field → Bool}
    {cs rest : List Char} (read : draft.read field cs = .ok (.part t known, rest))
    (absent : draft.has field = false) :
    known field ∧ draft = .part t (fun f => f != field && known f) ∧
      ∃ text, ElementText t field text ∧ cs = text ++ rest := by
  have settle {α : Type} {b : Bool} {v w : α} (same : some v = if b then some w else none) :
      b ∧ v = w := by
    cases b with
    | true => exact ⟨rfl, Option.some.inj same⟩
    | false => cases same
  obtain ⟨timestamp, symbol, price, volume⟩ := draft
  cases field with
  | timestamp =>
    obtain ⟨⟨v, behind⟩, read, same⟩ := (map_ok_iff _ _ _).mp read
    simp only [Prod.mk.injEq, Draft.part, Draft.mk.injEq] at same
    obtain ⟨⟨front, rfl, rfl, rfl⟩, rfl⟩ := same
    obtain ⟨is_known, rfl⟩ := settle front
    exact ⟨is_known, by simpa [Draft.part, Draft.has] using absent,
      element_of_value (timestamp_of_read read)⟩
  | symbol =>
    obtain ⟨⟨v, behind⟩, read, same⟩ := (map_ok_iff _ _ _).mp read
    simp only [Prod.mk.injEq, Draft.part, Draft.mk.injEq] at same
    obtain ⟨⟨rfl, front, rfl, rfl⟩, rfl⟩ := same
    obtain ⟨is_known, rfl⟩ := settle front
    exact ⟨is_known, by simpa [Draft.part, Draft.has] using absent,
      element_of_value (symbol_of_read read)⟩
  | price =>
    obtain ⟨⟨v, behind⟩, read, same⟩ := (map_ok_iff _ _ _).mp read
    simp only [Prod.mk.injEq, Draft.part, Draft.mk.injEq] at same
    obtain ⟨⟨rfl, rfl, front, rfl⟩, rfl⟩ := same
    obtain ⟨is_known, rfl⟩ := settle front
    exact ⟨is_known, by simpa [Draft.part, Draft.has] using absent,
      element_of_value (real_of_read read)⟩
  | volume =>
    obtain ⟨⟨v, behind⟩, read, same⟩ := (map_ok_iff _ _ _).mp read
    simp only [Prod.mk.injEq, Draft.part, Draft.mk.injEq] at same
    obtain ⟨⟨rfl, rfl, rfl, front⟩, rfl⟩ := same
    obtain ⟨is_known, rfl⟩ := settle front
    exact ⟨is_known, by simpa [Draft.part, Draft.has] using absent,
      element_of_value (real_of_read read)⟩

theorem has_read {draft next : Draft} {field : Field} {cs rest : List Char}
    (read : draft.read field cs = .ok (next, rest)) (f : Field) :
    next.has f = (f == field || draft.has f) := by
  cases field <;> obtain ⟨_, _, same⟩ := (map_ok_iff _ _ _).mp read <;> cases same <;>
    cases f <;> rfl

theorem name_of_named {name : String} {field : Field} (named : Field.named? name = some field) :
    name = field.name := by
  have same := List.find?_some named
  exact (of_decide_eq_true same).symm

theorem readMembers_ok {room : Nat} {draft final : Draft} {first : Bool} {cs rest : List Char}
    (read : readMembers room draft first cs = .ok (final, rest)) :
    (final = draft ∧ rest = cs) ∨
      ∃ less, ∃ field : Field, ∃ behind value next more, room = less + 1 ∧
        Json.nextKey first cs = .ok (some (field.name.toList, behind)) ∧
        draft.has field = false ∧ Json.colon behind = .ok value ∧
        draft.read field value = .ok (next, more) ∧
        readMembers less next false more = .ok (final, rest) := by
  unfold readMembers at read
  split at read
  · cases read
  · cases read
    exact .inl ⟨rfl, rfl⟩
  rename_i key behind keyRead
  dsimp only at read
  split at read
  · cases read
  · cases read
  rename_i field less named
  split at read
  · cases read
  rename_i absent
  split at read
  · cases read
  rename_i next more member
  obtain ⟨value, colon, member⟩ := (bind_ok_iff _ _ _).mp member
  have name : key = field.name.toList := by
    rw [← name_of_named named, String.toList_ofList]
  subst name
  exact .inr ⟨less, field, behind, value, next, more, rfl, keyRead, by simpa using absent, colon,
    member, read⟩

theorem items_of_readMembers {t : Tick} {room : Nat} {draft : Draft} {first : Bool}
    {cs rest : List Char} (read : readMembers room draft first cs = .ok (.full t, rest)) :
    ∃ known order body, draft = .part t known ∧ Items (MemberText t) first order body ∧
      cs = body ++ rest ∧ order.Nodup ∧ ∀ f, f ∈ order ↔ known f = false := by
  induction room generalizing draft first cs with
  | zero =>
    obtain ⟨rfl, rfl⟩ | ⟨less, _, _, _, _, _, more, _⟩ := readMembers_ok read
    · exact ⟨fun _ => true, [], [], rfl, .none, rfl, List.nodup_nil, by simp⟩
    · cases more
  | succ room ih =>
    obtain ⟨rfl, rfl⟩ | ⟨less, field, behind, value, next, more, same, key, absent, colon, member,
      others⟩ := readMembers_ok read
    · exact ⟨fun _ => true, [], [], rfl, .none, rfl, List.nodup_nil, by simp⟩
    cases same
    obtain ⟨known, order, body, rfl, items, rfl, once, exact_⟩ := ih others
    obtain ⟨is_known, rfl, element, stated, rfl⟩ := element_of_read member absent
    obtain ⟨gap, inner, text, blank, innerBlank, quoted, rfl⟩ := (nextKey_some_iff _ _ _ _).mp key
    obtain ⟨before, colonBlank, rfl⟩ := (colon_ok_iff _ _).mp colon
    refine ⟨_, field :: order, _, rfl,
      .next blank (.pair innerBlank quoted colonBlank stated) items, by simp, ?_, ?_⟩
    · refine List.nodup_cons.mpr ⟨?_, once⟩
      rw [exact_ field, is_known]
      decide
    · intro f
      rw [List.mem_cons, exact_ f]
      by_cases same : f = field <;> simp [same]

theorem Blank.endsNumeral {gap : List Char} (blank : Blank gap) {rest : List Char}
    (stop : EndsNumeral rest) : EndsNumeral (gap ++ rest) := by
  cases gap with
  | nil => exact stop
  | cons c gap =>
    intro d member
    have space : isSpace d := blank d (by simp [Option.mem_some.mp member])
    simp only [isSpace, Bool.or_eq_true, beq_iff_eq] at space
    rcases space with ((rfl | rfl) | rfl) | rfl <;> decide

theorem Items.endsNumeral {item : Field → List Char → Prop} {fields : List Field}
    {more : List Char} (items : Items item false fields more) {rest : List Char}
    (stop : EndsNumeral rest) : EndsNumeral (more ++ rest) := by
  cases items with
  | none => exact stop
  | next blank head others =>
    simp only [List.append_assoc]
    exact blank.endsNumeral (endsNumeral_separator _)

theorem endsNumeral_close {close : Char} (mark : close = '\x7d' ∨ close = ']') (rest : List Char) :
    EndsNumeral (close :: rest) := by
  intro c member
  cases Option.mem_some.mp member
  rcases mark with rfl | rfl <;> decide

theorem part_insert (t : Tick) (known : Field → Bool) (field : Field) (fields : List Field) :
    Draft.part t (fun f => (f == field || known f) || decide (f ∈ fields)) =
      .part t (fun f => known f || decide (f ∈ field :: fields)) := by
  congr
  funext f
  by_cases same : f = field
  · simp [same]
  · simp [same, beq_false_of_ne same]

theorem readMembers_key {draft : Draft} {field : Field} (absent : draft.has field = false)
    {front inner quoted before : List Char} (frontBlank : Blank front) (blank : Blank inner)
    (name : QuotedText quoted field.name.toList) (colonBlank : Blank before) (room : Nat)
    (first : Bool) (value : List Char) :
    readMembers (room + 1) draft first
        (front ++ (separator first ++ (inner ++ (quoted ++ (before ++ ':' :: value))))) =
      match draft.read field value with
      | .error fault => .error (.placed fault)
      | .ok (draft, rest) => readMembers room draft false rest := by
  have key := (nextKey_some_iff first _ field.name.toList (before ++ ':' :: value)).mpr
    ⟨front, inner, quoted, frontBlank, blank, name, rfl⟩
  have colon := (colon_ok_iff _ value).mpr ⟨before, colonBlank, rfl⟩
  rw [readMembers, key]
  cases read : draft.read field value with
  | error fault => simp [String.ofList_toList, named_name, absent, colon, bind, Except.bind, read]
  | ok found => simp [String.ofList_toList, named_name, absent, colon, bind, Except.bind, read]

theorem readMembers_member {t : Tick} {field : Field} {front text : List Char}
    (frontBlank : Blank front) (member : MemberText t field text) {known : Field → Bool}
    (fresh : known field = false) (room : Nat) (first : Bool) {rest : List Char}
    (stop : EndsNumeral rest) :
    readMembers (room + 1) (.part t known) first (front ++ (separator first ++ (text ++ rest))) =
      readMembers room (.part t fun f => f == field || known f) false rest := by
  cases member with
  | @pair inner quoted before value blank name colonBlank element =>
    have absent : (Draft.part t known).has field = false := by rw [has_part, fresh]
    simp only [List.append_assoc, List.cons_append]
    rw [readMembers_key absent frontBlank blank name colonBlank, read_element element known stop]

theorem readMembers_passes {t : Tick} {first : Bool} {order : List Field} {body : List Char}
    (items : Items (MemberText t) first order body) {known : Field → Bool} (once : order.Nodup)
    (absent : ∀ f ∈ order, known f = false) (room : Nat) {rest : List Char}
    (stop : EndsNumeral rest) :
    readMembers (order.length + room) (.part t known) first (body ++ rest) =
      readMembers room (.part t fun f => known f || decide (f ∈ order)) (first && order.isEmpty)
        rest := by
  induction items generalizing known with
  | none => simp
  | @next first front text more field fields frontBlank member others ih =>
    obtain ⟨fresh, once⟩ := List.nodup_cons.mp once
    obtain ⟨new, absent⟩ := List.forall_mem_cons.mp absent
    have later : ∀ f ∈ fields, (f == field || known f) = false := by
      intro f inside
      rw [beq_false_of_ne (ne_of_mem_of_not_mem inside fresh), absent f inside]
      rfl
    have count : (field :: fields).length + room = fields.length + room + 1 := by
      rw [List.length_cons, Nat.add_right_comm]
    simp only [List.append_assoc]
    rw [count, readMembers_member frontBlank member new _ first (others.endsNumeral stop),
      ih once later, part_insert, Bool.false_and, List.isEmpty_cons, Bool.and_false]

theorem readMembers_items {t : Tick} {first : Bool} {order : List Field} {body : List Char}
    (items : Items (MemberText t) first order body) {room : Nat} (fits : order.length ≤ room)
    {known : Field → Bool} (once : order.Nodup) (absent : ∀ f ∈ order, known f = false)
    {gap : List Char} (blank : Blank gap) (rest : List Char) :
    readMembers room (.part t known) first (body ++ (gap ++ '\x7d' :: rest)) =
      .ok (.part t fun f => known f || decide (f ∈ order), gap ++ '\x7d' :: rest) := by
  obtain ⟨more, rfl⟩ := Nat.exists_eq_add_of_le fits
  have stop := blank.endsNumeral (endsNumeral_close (.inl rfl) rest)
  rw [readMembers_passes items once absent more stop, readMembers, nextKey_none blank]

theorem items_of_readElements {t : Tick} {draft : Draft} {count : Nat} {fields : List Field}
    {cs rest : List Char} (read : readElements draft cs count fields = .ok (.full t, rest))
    (absent : ∀ f ∈ fields, draft.has f = false) (once : fields.Nodup) :
    ∃ known body, draft = .part t known ∧ Items (ElementText t) (count == 0) fields body ∧
      cs = body ++ rest := by
  induction fields generalizing draft count cs with
  | nil =>
    cases read
    exact ⟨fun _ => true, [], rfl, .none, rfl⟩
  | cons field fields ih =>
    obtain ⟨fresh, once⟩ := List.nodup_cons.mp once
    obtain ⟨new, absent⟩ := List.forall_mem_cons.mp absent
    unfold readElements at read
    split at read
    · cases read
    · cases read
    rename_i behind element
    split at read
    · cases read
    rename_i next more read_
    have later : ∀ f ∈ fields, next.has f = false := by
      intro f inside
      rw [has_read read_ f, beq_false_of_ne (ne_of_mem_of_not_mem inside fresh), absent f inside]
      rfl
    obtain ⟨known, body, rfl, items, rfl⟩ := ih read later once
    obtain ⟨_, rfl, text, stated, rfl⟩ := element_of_read read_ new
    obtain ⟨gap, inner, blank, innerBlank, rfl⟩ := gaps_of_nextElement element
    cases stated with
    | @value front text frontBlank value =>
      have whole : Blank (inner ++ front) := fun c member =>
        (List.mem_append.mp member).elim (innerBlank c) (frontBlank c)
      exact ⟨_, _, rfl, .next blank (.value whole value) items, by simp⟩

theorem readElements_value (draft : Draft) {field : Field} {gap inner : List Char}
    (blank : Blank gap) (innerBlank : Blank inner) {c : Char} (shown : isSpace c = false)
    (inside : c ≠ ']') (count : Nat) (fields : List Field) (rest : List Char) :
    readElements draft (gap ++ (separator (count == 0) ++ (inner ++ c :: rest))) count
        (field :: fields) =
      match draft.read field (c :: rest) with
      | .error fault => .error (.placed fault)
      | .ok (draft, rest) => readElements draft rest (count + 1) fields := by
  have next := nextElement_gaps blank innerBlank (count == 0) shown inside rest
  cases read : draft.read field (c :: rest) with
  | error fault => simp only [readElements, next, read]
  | ok found => simp only [readElements, next, read]

theorem readElements_passes {t : Tick} {fields : List Field} {count : Nat} {body : List Char}
    (items : Items (ElementText t) (count == 0) fields body) (known : Field → Bool)
    (others : List Field) {rest : List Char} (stop : EndsNumeral rest) :
    readElements (.part t known) (body ++ rest) count (fields ++ others) =
      readElements (.part t fun f => known f || decide (f ∈ fields)) rest (count + fields.length)
        others := by
  induction fields generalizing count body known with
  | nil =>
    cases items
    simp
  | cons field fields ih =>
    cases items with
    | @next _ front _ more _ _ frontBlank element behind =>
      cases element with
      | @value inner text innerBlank value =>
        obtain ⟨c, tail, rfl, shown, inside⟩ := value.lead
        have bare : ElementText t field ([] ++ c :: tail) := .value blank_nil value
        have read := read_element bare known (behind.endsNumeral stop)
        have later : Items (ElementText t) (count + 1 == 0) fields more := behind
        simp only [List.nil_append, List.cons_append] at read
        simp only [List.append_assoc, List.cons_append]
        rw [readElements_value _ frontBlank innerBlank shown inside, read]
        dsimp only
        rw [ih later, part_insert, List.length_cons, Nat.add_right_comm, Nat.add_assoc]

theorem readElements_items {t : Tick} {fields : List Field} {count : Nat} {body : List Char}
    (items : Items (ElementText t) (count == 0) fields body) (known : Field → Bool)
    {gap : List Char} (blank : Blank gap) (rest : List Char) :
    readElements (.part t known) (body ++ (gap ++ ']' :: rest)) count fields =
      .ok (.part t fun f => known f || decide (f ∈ fields), gap ++ ']' :: rest) := by
  have passed := readElements_passes items known []
    (blank.endsNumeral (endsNumeral_close (.inr rfl) rest))
  rw [List.append_nil] at passed
  rw [passed, readElements]

def closed (read : Except Refusal (Draft × List Char)) (bracket : Char)
    (close : List Char → Except Fault (List Char)) : Except Fault (Tick × List Char) :=
  let completed := do
    let (draft, rest) ← read
    match draft.complete with
    | .ok tick => return (tick, rest)
    | .error field => throw (Refusal.unplaced (.missingMember field.name) rest)
  match completed with
  | .error refusal => .error (refusal.place bracket)
  | .ok (tick, rest) => (close rest).map fun rest => (tick, rest)

theorem readObject_closed (cs : List Char) :
    readObject cs =
      closed (readMembers Field.all.length {} true cs) '\x7d' Json.closeObject := rfl

theorem readList_closed (cs : List Char) :
    readList cs = closed (readElements {} cs 0 Field.all) ']' Json.closeList := rfl

theorem closed_ok_iff (read : Except Refusal (Draft × List Char)) (bracket : Char)
    (close : List Char → Except Fault (List Char)) (t : Tick) (rest : List Char) :
    closed read bracket close = .ok (t, rest) ↔
      ∃ behind, read = .ok (.full t, behind) ∧ close behind = .ok rest := by
  cases read with
  | error refusal => simp [closed, bind, Except.bind]
  | ok found =>
    obtain ⟨draft, behind⟩ := found
    simp only [closed, bind, Except.bind, Except.ok.injEq, Prod.mk.injEq, ← complete_ok_iff]
    cases complete : draft.complete with
    | error field => simp [throw, throwThe, MonadExceptOf.throw]
    | ok tick =>
      simp only [pure, Except.pure, map_ok_iff, Prod.mk.injEq, Except.ok.injEq]
      constructor
      · intro given
        rcases given with ⟨_, closed, rfl, rfl⟩
        exact ⟨behind, ⟨rfl, rfl⟩, closed⟩
      · intro given
        rcases given with ⟨_, ⟨rfl, rfl⟩, closed⟩
        exact ⟨rest, closed, rfl, rfl⟩

theorem all_nodup : Field.all.Nodup := by decide

theorem mem_all (field : Field) : field ∈ Field.all := by
  cases field <;> decide

theorem empty_has (field : Field) : ({} : Draft).has field = false := by
  cases field <;> rfl

theorem part_full (t : Tick) {fields : List Field} (every : ∀ f, f ∈ fields) :
    Draft.part t (fun f => false || decide (f ∈ fields)) = .full t := by
  simp [Draft.full, every]

theorem readObject_ok_iff (cs rest : List Char) (t : Tick) :
    readObject cs = .ok (t, rest) ↔
      ∃ order body gap, Items (MemberText t) true order body ∧ order.Perm Field.all ∧ Blank gap ∧
        cs = body ++ (gap ++ '\x7d' :: rest) := by
  rw [readObject_closed, closed_ok_iff]
  constructor
  · intro given
    rcases given with ⟨behind, read, close⟩
    obtain ⟨known, order, body, draft, items, rfl, once, unknown⟩ := items_of_readMembers read
    obtain ⟨gap, blank, rfl⟩ := (closeObject_ok_iff _ _).mp close
    refine ⟨order, body, gap, items, ?_, blank, rfl⟩
    refine (List.perm_ext_iff_of_nodup once all_nodup).mpr ?_
    intro f
    have absent : known f = false := by rw [← has_part t known, ← draft, empty_has]
    simp only [mem_all, (unknown f).mpr absent]
  · intro given
    rcases given with ⟨order, body, gap, items, once, blank, rfl⟩
    have every : ∀ f, f ∈ order := fun f => once.mem_iff.mpr (mem_all f)
    have absent : ∀ f ∈ order, (fun _ => false : Field → Bool) f = false := fun _ _ => rfl
    have read := readMembers_items items (Nat.le_of_eq once.length_eq)
      (once.nodup_iff.mpr all_nodup) absent blank rest
    rw [← empty_part, part_full t every] at read
    exact ⟨_, read, (closeObject_ok_iff _ _).mpr ⟨gap, blank, rfl⟩⟩

theorem readList_ok_iff (cs rest : List Char) (t : Tick) :
    readList cs = .ok (t, rest) ↔
      ∃ body gap, Items (ElementText t) true Field.all body ∧ Blank gap ∧
        cs = body ++ (gap ++ ']' :: rest) := by
  rw [readList_closed, closed_ok_iff]
  constructor
  · intro given
    rcases given with ⟨behind, read, close⟩
    obtain ⟨known, body, _, items, rfl⟩ :=
      items_of_readElements read (fun f _ => empty_has f) all_nodup
    obtain ⟨gap, blank, rfl⟩ := (closeList_ok_iff _ _).mp close
    exact ⟨body, gap, items, blank, rfl⟩
  · intro given
    rcases given with ⟨body, gap, items, blank, rfl⟩
    have first : Items (ElementText t) (0 == 0) Field.all body := items
    have read := readElements_items first (fun _ => false) blank rest
    rw [← empty_part, part_full t mem_all] at read
    exact ⟨_, read, (closeList_ok_iff _ _).mpr ⟨gap, blank, rfl⟩⟩

theorem readTick_ok_iff (cs rest : List Char) (t : Tick) :
    readTick cs = .ok (t, rest) ↔
      ∃ front more, Blank front ∧
        (cs = front ++ '\x7b' :: more ∧ readObject more = .ok (t, rest) ∨
          cs = front ++ '[' :: more ∧ readList more = .ok (t, rest)) := by
  constructor
  · intro read
    unfold readTick at read
    split at read
    · cases read
    · rename_i more next
      obtain ⟨front, blank, rfl⟩ := gap_of_skipSpace next
      exact ⟨front, more, blank, .inl ⟨rfl, read⟩⟩
    · rename_i more next
      obtain ⟨front, blank, rfl⟩ := gap_of_skipSpace next
      exact ⟨front, more, blank, .inr ⟨rfl, read⟩⟩
    · cases read
  · intro given
    rcases given with ⟨front, more, blank, ⟨rfl, read⟩ | ⟨rfl, read⟩⟩
    · rw [readTick, skipSpace_gap blank (by decide)]
      exact read
    · rw [readTick, skipSpace_gap blank (by decide)]
      exact read

theorem ofWireText_finish (cs : List Char) (t : Tick) :
    ofWireText cs = .ok t ↔ ∃ back, readTick cs = .ok (t, back) ∧ Blank back := by
  constructor
  · intro read
    obtain ⟨⟨found, back⟩, read, behind⟩ := (bind_ok_iff _ _ _).mp read
    obtain ⟨_, finished, same⟩ := (bind_ok_iff _ _ _).mp behind
    cases same
    exact ⟨back, read, (finish_ok_iff back).mp finished⟩
  · intro given
    rcases given with ⟨back, read, blank⟩
    have finished := (finish_ok_iff back).mpr blank
    simp only [ofWireText, read, finished, bind, Except.bind, pure, Except.pure]

theorem ofWireText_ok_iff (cs : List Char) (t : Tick) : ofWireText cs = .ok t ↔ Payload t cs := by
  rw [ofWireText_finish]
  constructor
  · intro given
    rcases given with ⟨back, read, backBlank⟩
    obtain ⟨front, more, frontBlank, ⟨rfl, object⟩ | ⟨rfl, list⟩⟩ := (readTick_ok_iff _ _ _).mp read
    · obtain ⟨order, body, gap, members, once, blank, rfl⟩ := (readObject_ok_iff _ _ _).mp object
      exact .object frontBlank members once blank backBlank
    · obtain ⟨body, gap, elements, blank, rfl⟩ := (readList_ok_iff _ _ _).mp list
      exact .list frontBlank elements blank backBlank
  · intro payload
    cases payload with
    | @object front body gap back order frontBlank members once blank backBlank =>
      have object := (readObject_ok_iff _ back t).mpr ⟨order, body, gap, members, once, blank, rfl⟩
      exact ⟨back, (readTick_ok_iff _ _ _).mpr ⟨front, _, frontBlank, .inl ⟨rfl, object⟩⟩, backBlank⟩
    | @list front body gap back frontBlank elements blank backBlank =>
      have list := (readList_ok_iff _ back t).mpr ⟨body, gap, elements, blank, rfl⟩
      exact ⟨back, (readTick_ok_iff _ _ _).mpr ⟨front, _, frontBlank, .inr ⟨rfl, list⟩⟩, backBlank⟩

/-- Exactly the payloads of a tick decode to it, and any other text is refused with the place and the
    cause of a fault. -/
theorem ofWire_payload (text : String) :
    (∀ t, ofWire text = .ok t ↔ Payload t text.toList) ∧
    ((∃ t, Payload t text.toList) ∨
      ∃ fault : Fault, ofWire text =
        .error s!"payload does not match the tick schema: {fault.message text.toList}") := by
  have decoded (t : Tick) : ofWire text = .ok t ↔ ofWireText text.toList = .ok t := by
    unfold ofWire
    cases ofWireText text.toList <;> simp
  refine ⟨fun t => (decoded t).trans (ofWireText_ok_iff _ t), ?_⟩
  cases read : ofWireText text.toList with
  | ok t => exact .inl ⟨t, (ofWireText_ok_iff _ t).mp read⟩
  | error fault =>
    refine .inr ⟨fault, ?_⟩
    rw [ofWire, read]
    rfl

/- Another order, an escaped name and letter, blanks and an exponent. -/
example :
    ofWire "\x7b\"volume\":3,\"pric\\u0065\":2e0,\n\"symbol\":\"\\u0041\",\"timestamp_ms\":1\x7d " =
      .ok ⟨1, "A", .ofCode false 0x4000000000000000, .ofCode false 0x4008000000000000⟩ := by
  decide +kernel

end TickReplay.Tick
