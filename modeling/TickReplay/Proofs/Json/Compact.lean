import TickReplay.Proofs.Json.Document
import TickReplay.Proofs.Json.NumberText

/- Compact text reads back. The text of a value holds one document, the value with every number in its
   printed digits, whatever stands behind it. No character of it is a control, so it is one line. -/
namespace TickReplay.Json

mutual
/-- What holds of every number of a value and of the keys of every object. -/
def Throughout (number : Number → Prop) (keys : List String → Prop) : Json → Prop
  | .null => True
  | .boolean _ => True
  | .number value => number value
  | .text _ => True
  | .list items => ThroughoutItems number keys items
  | .object members => keys (members.map Prod.fst) ∧ ThroughoutMembers number keys members

def ThroughoutItems (number : Number → Prop) (keys : List String → Prop) : List Json → Prop
  | [] => True
  | item :: more => Throughout number keys item ∧ ThroughoutItems number keys more

def ThroughoutMembers (number : Number → Prop) (keys : List String → Prop) :
    List (String × Json) → Prop
  | [] => True
  | (_, value) :: more => Throughout number keys value ∧ ThroughoutMembers number keys more
end

mutual
theorem throughout_mono {number : Number → Prop} {keys keys' : List String → Prop}
    (weaker : ∀ ks, keys ks → keys' ks) (value : Json) (given : Throughout number keys value) :
    Throughout number keys' value := by
  match value with
  | .null => trivial
  | .boolean _ => trivial
  | .number _ => exact given
  | .text _ => trivial
  | .list items => exact throughoutItems_mono weaker items given
  | .object members => exact ⟨weaker _ given.1, throughoutMembers_mono weaker members given.2⟩

theorem throughoutItems_mono {number : Number → Prop} {keys keys' : List String → Prop}
    (weaker : ∀ ks, keys ks → keys' ks) (items : List Json)
    (given : ThroughoutItems number keys items) : ThroughoutItems number keys' items := by
  match items with
  | [] => trivial
  | item :: more =>
    exact ⟨throughout_mono weaker item given.1, throughoutItems_mono weaker more given.2⟩

theorem throughoutMembers_mono {number : Number → Prop} {keys keys' : List String → Prop}
    (weaker : ∀ ks, keys ks → keys' ks) (members : List (String × Json))
    (given : ThroughoutMembers number keys members) : ThroughoutMembers number keys' members := by
  match members with
  | [] => trivial
  | (_, value) :: more =>
    exact ⟨throughout_mono weaker value given.1, throughoutMembers_mono weaker more given.2⟩
end

def Proper (value : Json) : Prop := Throughout Number.Proper List.Nodup value

mutual
def document : Json → Document
  | .null => .null
  | .boolean value => .boolean value
  | .number value => .numeral value.text
  | .text value => .text value
  | .list items => .list (documents items)
  | .object members => .object (memberDocuments members)

def documents : List Json → List Document
  | [] => []
  | item :: more => document item :: documents more

def memberDocuments : List (String × Json) → List (String × Document)
  | [] => []
  | (key, value) :: more => (key, document value) :: memberDocuments more
end

theorem readDigits_text {n : Number} (proper : n.Proper) {rest : List Char}
    (stop : EndsNumeral rest) : Document.readDigits (n.text ++ rest) = .ok (n.text, rest) := by
  obtain ⟨value, read⟩ := readNumeral_text proper stop
  rw [Document.readDigits, read]
  simp [Except.map]

variable {keys : List String → Prop}

structure Opens (c : Char) : Prop where
  shown : isSpace c = false
  other : c ≠ ']'

theorem compactText_opens {value : Json} (proper : Throughout Number.Proper keys value) :
    ∃ c cs, value.compactText = c :: cs ∧ Opens c := by
  cases value with
  | null => exact ⟨'n', _, rfl, by decide, by decide⟩
  | boolean value =>
    cases value with
    | true => exact ⟨'t', _, rfl, by decide, by decide⟩
    | false => exact ⟨'f', _, rfl, by decide, by decide⟩
  | number value =>
    obtain ⟨c, cs, front, numeral⟩ := text_lead proper
    refine ⟨c, cs, front, (numeral_lead numeral).1, ?_⟩
    rintro rfl
    contradiction
  | text value => exact ⟨'"', _, rfl, by decide, by decide⟩
  | list items => exact ⟨'[', _, rfl, by decide, by decide⟩
  | object members => exact ⟨'\x7b', _, rfl, by decide, by decide⟩

theorem compactText_length {value : Json} (proper : Throughout Number.Proper keys value) :
    0 < value.compactText.length := by
  obtain ⟨c, cs, front, _⟩ := compactText_opens proper
  rw [front]
  exact Nat.succ_pos cs.length

open Tick (separator skipSpace_cons)

theorem nextElement_compactText (first : Bool) {value : Json}
    (proper : Throughout Number.Proper keys value) (rest : List Char) :
    nextElement first (separator first ++ (value.compactText ++ rest)) =
      .ok (some (value.compactText ++ rest)) := by
  obtain ⟨c, cs, front, opens⟩ := compactText_opens proper
  rw [front, List.cons_append]
  have shown := skipSpace_cons opens.shown (cs ++ rest)
  cases first with
  | true => simp [separator, nextElement, shown, opens.other]
  | false => simp [separator, nextElement, skipSpace_cons (c := ',') (by decide), shown, opens.other]

theorem nextElement_bracket (first : Bool) (rest : List Char) :
    nextElement first (']' :: rest) = .ok none := by
  simp [nextElement, skipSpace_cons (c := ']') (by decide)]

theorem nextKey_brace (first : Bool) (rest : List Char) :
    nextKey first ('\x7d' :: rest) = .ok none := by
  simp [nextKey, skipSpace_cons (c := '\x7d') (by decide)]

def separatedItems (first : Bool) : List Json → List Char
  | [] => []
  | item :: more => separator first ++ (compactText item ++ separatedItems false more)

def separatedMembers (first : Bool) : List (String × Json) → List Char
  | [] => []
  | (key, value) :: more =>
    separator first ++
      (stringText key.toList ++ ':' :: (compactText value ++ separatedMembers false more))

theorem itemsText_eq (items : List Json) : itemsText items = separatedItems true items := by
  induction items with
  | nil => rfl
  | cons item more ih =>
    cases more with
    | nil => simp [itemsText, separatedItems, separator]
    | cons next more =>
      rw [itemsText, ih]
      · simp [separatedItems, separator]
      · simp

theorem membersText_eq (members : List (String × Json)) :
    membersText members = separatedMembers true members := by
  induction members with
  | nil => rfl
  | cons member more ih =>
    cases more with
    | nil => simp [membersText, separatedMembers, separator]
    | cons next more =>
      rw [membersText, ih]
      · simp [separatedMembers, separator]
      · simp

theorem endsNumeral_items (items : List Json) (rest : List Char) :
    EndsNumeral (separatedItems false items ++ ']' :: rest) := by
  cases items with
  | nil =>
    intro c member
    cases Option.mem_some.mp member
    decide
  | cons item more =>
    rw [separatedItems, List.append_assoc]
    exact Tick.endsNumeral_separator _

theorem endsNumeral_members (members : List (String × Json)) (rest : List Char) :
    EndsNumeral (separatedMembers false members ++ '\x7d' :: rest) := by
  cases members with
  | nil =>
    intro c member
    cases Option.mem_some.mp member
    decide
  | cons member more =>
    rw [separatedMembers, List.append_assoc]
    exact Tick.endsNumeral_separator _

theorem readValueFuel_numeral (fuel : Nat) {n : Number} (proper : n.Proper) {rest : List Char}
    (stop : EndsNumeral rest) :
    Document.readValueFuel (fuel + 1) (n.text ++ rest) = .ok (.numeral n.text, rest) := by
  obtain ⟨c, cs, front, numeral⟩ := text_lead proper
  obtain ⟨shown, brace, bracket, quote, n_, t, f⟩ := numeral_lead numeral
  have read := readDigits_text proper stop
  rw [front, List.cons_append] at read ⊢
  rw [Document.readValueFuel, skipSpace_cons shown]
  simp only [brace, bracket, quote, n_, t, f, numeral, if_false, if_true, read, Except.map]

theorem readValueFuel_stringText (fuel : Nat) (text rest : List Char) :
    Document.readValueFuel (fuel + 1) (stringText text ++ rest) =
      .ok (.text (String.ofList text), rest) := by
  have written : stringText text ++ rest = '"' :: (escape text ++ '"' :: rest) := by
    simp [stringText]
  rw [written, Document.readValueFuel, skipSpace_cons (by decide)]
  simp [readText_escape, Except.map]

theorem readValueFuel_list {fuel : Nat} {inside rest : List Char} {items : List Document}
    (read : Document.readItemsFuel fuel true [] inside = .ok (items, ']' :: rest)) :
    Document.readValueFuel (fuel + 1) ('[' :: inside) = .ok (.list items, rest) := by
  have close : closeList (']' :: rest) = .ok rest := by
    simp [closeList, skipSpace_cons (c := ']') (by decide)]
  rw [Document.readValueFuel, skipSpace_cons (by decide)]
  simp [read, close, bind, Except.bind, pure, Except.pure]

theorem readValueFuel_object {fuel : Nat} {inside rest : List Char}
    {members : List (String × Document)}
    (read : Document.readMembersFuel fuel true [] inside = .ok (members, '\x7d' :: rest)) :
    Document.readValueFuel (fuel + 1) ('\x7b' :: inside) = .ok (.object members, rest) := by
  have close : closeObject ('\x7d' :: rest) = .ok rest := by
    simp [closeObject, skipSpace_cons (c := '\x7d') (by decide)]
  rw [Document.readValueFuel, skipSpace_cons (by decide)]
  simp [read, close, bind, Except.bind, pure, Except.pure]

/- Two units of fuel for each character are enough: a list or an object takes one for itself and one
   for each of its items, and each of these has a character of its own. -/
mutual
theorem readValueFuel_compactText (value : Json) (proper : Throughout Number.Proper keys value)
    (fuel : Nat) (enough : 2 * value.compactText.length ≤ fuel) (rest : List Char)
    (stop : EndsNumeral rest) :
    Document.readValueFuel fuel (value.compactText ++ rest) = .ok (value.document, rest) := by
  have some := compactText_length proper
  obtain ⟨fuel, rfl⟩ : ∃ more, fuel = more + 1 := ⟨fuel - 1, by omega⟩
  match value with
  | .null => rfl
  | .boolean true => rfl
  | .boolean false => rfl
  | .number value => exact readValueFuel_numeral fuel proper stop
  | .text value =>
    rw [compactText, readValueFuel_stringText, String.ofList_toList, document]
  | .list items =>
    rw [compactText, itemsText_eq, List.length_append, List.length_cons] at enough
    have inside := readItemsFuel_separated items proper fuel true [] (by omega) rest
    have text : compactText (.list items) ++ rest =
        '[' :: (separatedItems true items ++ ']' :: rest) := by simp [compactText, itemsText_eq]
    rw [text]
    exact readValueFuel_list inside
  | .object members =>
    rw [compactText, membersText_eq, List.length_append, List.length_cons] at enough
    have inside := readMembersFuel_separated members proper.2 fuel true [] (by omega) rest
    have text : compactText (.object members) ++ rest =
        '\x7b' :: (separatedMembers true members ++ '\x7d' :: rest) := by
      simp [compactText, membersText_eq]
    rw [text]
    exact readValueFuel_object inside

theorem readItemsFuel_separated (items : List Json)
    (proper : ThroughoutItems Number.Proper keys items) (fuel : Nat) (first : Bool)
    (read : List Document)
    (enough : 2 * (separatedItems first items).length + 1 ≤ fuel) (rest : List Char) :
    Document.readItemsFuel fuel first read (separatedItems first items ++ ']' :: rest) =
      .ok (read.reverse ++ documents items, ']' :: rest) := by
  obtain ⟨fuel, rfl⟩ : ∃ more, fuel = more + 1 := ⟨fuel - 1, by omega⟩
  match items with
  | [] =>
    simp [separatedItems, Document.readItemsFuel, nextElement_bracket, documents]
  | item :: more =>
    have some := compactText_length proper.1
    simp only [separatedItems, List.length_append] at enough
    have head := readValueFuel_compactText item proper.1 fuel (by omega)
      (separatedItems false more ++ ']' :: rest) (endsNumeral_items more rest)
    have tail := readItemsFuel_separated more proper.2 fuel false (item.document :: read)
      (by omega) rest
    simp only [separatedItems, List.append_assoc]
    rw [Document.readItemsFuel, nextElement_compactText first proper.1]
    simp only [head, tail, documents, List.reverse_cons, List.append_assoc, List.singleton_append]

theorem readMembersFuel_separated (members : List (String × Json))
    (proper : ThroughoutMembers Number.Proper keys members) (fuel : Nat) (first : Bool)
    (read : List (String × Document))
    (enough : 2 * (separatedMembers first members).length + 1 ≤ fuel) (rest : List Char) :
    Document.readMembersFuel fuel first read (separatedMembers first members ++ '\x7d' :: rest) =
      .ok (read.reverse ++ memberDocuments members, '\x7d' :: rest) := by
  obtain ⟨fuel, rfl⟩ : ∃ more, fuel = more + 1 := ⟨fuel - 1, by omega⟩
  match members with
  | [] =>
    simp [separatedMembers, Document.readMembersFuel, nextKey_brace, memberDocuments]
  | (key, value) :: more =>
    simp only [separatedMembers, List.length_append, List.length_cons] at enough
    have head := readValueFuel_compactText value proper.1 fuel (by omega)
      (separatedMembers false more ++ '\x7d' :: rest) (endsNumeral_members more rest)
    have tail := readMembersFuel_separated more proper.2 fuel false ((key, value.document) :: read)
      (by omega) rest
    have mark : colon (':' :: (value.compactText ++ (separatedMembers false more ++ '\x7d' :: rest)))
        = .ok (value.compactText ++ (separatedMembers false more ++ '\x7d' :: rest)) := by
      simp [colon, skipSpace_cons (c := ':') (by decide)]
    simp only [separatedMembers, List.append_assoc, List.cons_append]
    rw [Document.readMembersFuel, Tick.nextKey_stringText first]
    simp only [mark, bind, Except.bind, head, String.ofList_toList, tail, memberDocuments,
      List.reverse_cons, List.append_assoc, List.singleton_append]
end

/-- The compact text of a value is read whole, as the value in its printed digits. -/
theorem ofText_compactText {value : Json} (proper : Throughout Number.Proper keys value) :
    Document.ofText value.compactText = .ok value.document := by
  have read := readValueFuel_compactText value proper (2 * (value.compactText.length + 1)) (by omega)
    [] endsNumeral_nil
  rw [List.append_nil] at read
  rw [Document.ofText, Document.readValue, read]
  rfl

def Shown (cs : List Char) : Prop := ∀ c ∈ cs, 0x20 ≤ c.toNat

theorem shown_nil : Shown [] := by
  intro c member
  contradiction

theorem shown_cons {c : Char} {cs : List Char} (first : 0x20 ≤ c.toNat) (others : Shown cs) :
    Shown (c :: cs) :=
  List.forall_mem_cons.mpr ⟨first, others⟩

theorem shown_append {front back : List Char} (first : Shown front) (second : Shown back) :
    Shown (front ++ back) := by
  intro c member
  rcases List.mem_append.mp member with inFront | inBack
  · exact first c inFront
  · exact second c inBack

theorem shown_digits {ds : List Char} (digits : ∀ c ∈ ds, c.isDigit) : Shown ds := by
  intro c member
  have least := (isDigit_bounds (digits c member)).1
  omega

theorem shown_escapeChar (c : Char) : Shown (escapeChar c) := by
  have hex : ∀ n < 16, 0x20 ≤ (hexDigit n).toNat := by decide
  unfold escapeChar
  iterate 7
    split
    · exact shown_cons (by decide) (shown_cons (by decide) shown_nil)
  split
  · rename_i control
    have high := hex (c.toNat / 16) (by omega)
    have low := hex (c.toNat % 16) (by omega)
    have mark : Shown ['\\', 'u', '0', '0'] := by simp [Shown]
    exact shown_append mark (shown_cons high (shown_cons low shown_nil))
  · rename_i shown
    exact shown_cons (Nat.not_lt.mp shown) shown_nil

theorem shown_stringText (cs : List Char) : Shown (stringText cs) := by
  have inside : Shown (escape cs) := by
    intro c member
    obtain ⟨d, _, escaped⟩ := List.mem_flatMap.mp member
    exact shown_escapeChar d c escaped
  exact shown_append (shown_cons (by decide) inside) (shown_cons (by decide) shown_nil)

theorem shown_positional (x : Decimal) : Shown (x.positional ['.', '0']) := by
  have digits : Shown x.digits := shown_digits (toDigits_digits x.coefficient)
  have zeros (n : Nat) : Shown (List.replicate n '0') := shown_digits (zeros_digits n)
  unfold Decimal.positional
  split
  · exact shown_append (shown_append digits (zeros _)) (by simp [Shown])
  · dsimp only
    split
    · exact shown_append (fun c member => digits c (List.mem_of_mem_take member))
        (shown_cons (by decide) fun c member => digits c (List.mem_of_mem_drop member))
    · exact shown_cons (by decide) (shown_cons (by decide) (shown_append (zeros _) digits))

theorem shown_scientific (x : Decimal) : Shown x.scientific := by
  have digits : Shown x.digits := shown_digits (toDigits_digits x.coefficient)
  have order : Shown (exponentText x.order) := by
    refine shown_cons ?_ (shown_digits (toDigits_digits _))
    split <;> decide
  refine shown_append ?_ (shown_cons (by decide) order)
  split
  · exact shown_nil
  · rename_i front
    exact front ▸ digits
  · rename_i d more _ front
    rw [front] at digits
    exact shown_cons (digits d (by simp))
      (shown_cons (by decide) fun c member => digits c (List.mem_cons_of_mem d member))

theorem shown_sign (negative : Prop) [Decidable negative] :
    Shown (if negative then ['-'] else []) := by
  split <;> simp [Shown]

theorem shown_realText (x : Binary64) : Shown (realText x) := by
  unfold realText
  split
  · refine shown_append (shown_sign _) ?_
    unfold magnitudeText
    dsimp only
    split
    · exact shown_positional _
    · exact shown_scientific _
  · simp [Shown]

theorem shown_number (n : Number) : Shown n.text := by
  cases n with
  | integer n => exact shown_append (shown_sign _) (shown_digits (toDigits_digits _))
  | real x => exact shown_realText x

theorem shown_separator (first : Bool) : Shown (separator first) := by
  cases first <;> simp [Shown, separator]

mutual
theorem shown_compactText (value : Json) : Shown value.compactText := by
  match value with
  | .null => simp [Shown, compactText]
  | .boolean true => simp [Shown, compactText]
  | .boolean false => simp [Shown, compactText]
  | .number value => exact shown_number value
  | .text value => exact shown_stringText _
  | .list items =>
    rw [compactText, itemsText_eq]
    exact shown_append (shown_cons (by decide) (shown_items true items))
      (shown_cons (by decide) shown_nil)
  | .object members =>
    rw [compactText, membersText_eq]
    exact shown_append (shown_cons (by decide) (shown_members true members))
      (shown_cons (by decide) shown_nil)

theorem shown_items (first : Bool) (items : List Json) : Shown (separatedItems first items) := by
  match items with
  | [] => exact shown_nil
  | item :: more =>
    exact shown_append (shown_separator first)
      (shown_append (shown_compactText item) (shown_items false more))

theorem shown_members (first : Bool) (members : List (String × Json)) :
    Shown (separatedMembers first members) := by
  match members with
  | [] => exact shown_nil
  | (key, value) :: more =>
    exact shown_append (shown_separator first) (shown_append (shown_stringText key.toList)
      (shown_cons (by decide) (shown_append (shown_compactText value) (shown_members false more))))
end

end TickReplay.Json
