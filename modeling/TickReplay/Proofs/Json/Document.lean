import TickReplay.Json.Reader
import TickReplay.Proofs.Json.Literal

/- Values as they are spelled. A number stays the digits that stand in the text, so that numbers are
   compared as they are printed, and no conversion can make two of them one. In everything else the
   reader of documents is the reader of values: a text is refused by both or by neither, and the value
   that it holds is the one that its document denotes. -/
namespace TickReplay

inductive Document where
  | null
  | boolean (value : Bool)
  | numeral (digits : List Char)
  | text (value : String)
  | list (items : List Document)
  | object (members : List (String × Document))
  deriving Repr

namespace Document

open Json (Fault skipSpace closeObject closeList readText readIdent readNumeral startsNumeral
  nextElement nextKey colon finish)

def readDigits (cs : List Char) : Except Fault (List Char × List Char) :=
  (readNumeral cs).map fun (_, rest) => (cs.take (cs.length - rest.length), rest)

mutual
def readValueFuel : Nat → List Char → Except Fault (Document × List Char)
  | 0, _ => .error (.here .endOfValue [])
  | fuel + 1, cs =>
    match skipSpace cs with
    | [] => .error (.here .endOfValue [])
    | c :: rest =>
      if c = '\x7b' then do
        let (members, rest) ← readMembersFuel fuel true [] rest
        return (.object members, ← closeObject rest)
      else if c = '[' then do
        let (items, rest) ← readItemsFuel fuel true [] rest
        return (.list items, ← closeList rest)
      else if c = '"' then
        (readText rest).map fun (chars, rest) => (.text (String.ofList chars), rest)
      else if c = 'n' then (readIdent "ull".toList rest).map fun rest => (.null, rest)
      else if c = 't' then (readIdent "rue".toList rest).map fun rest => (.boolean true, rest)
      else if c = 'f' then (readIdent "alse".toList rest).map fun rest => (.boolean false, rest)
      else if startsNumeral c then
        (readDigits (c :: rest)).map fun (digits, rest) => (.numeral digits, rest)
      else .error (.next .expectedValue (c :: rest))

def readItemsFuel : Nat → Bool → List Document → List Char →
    Except Fault (List Document × List Char)
  | 0, _, _, _ => .error (.here .endOfList [])
  | fuel + 1, first, read, cs =>
    match nextElement first cs with
    | .error fault => .error fault
    | .ok none => .ok (read.reverse, cs)
    | .ok (some rest) =>
      match readValueFuel fuel rest with
      | .error fault => .error fault
      | .ok (item, rest) => readItemsFuel fuel false (item :: read) rest

def readMembersFuel : Nat → Bool → List (String × Document) → List Char →
    Except Fault (List (String × Document) × List Char)
  | 0, _, _, _ => .error (.here .endOfObject [])
  | fuel + 1, first, read, cs =>
    match nextKey first cs with
    | .error fault => .error fault
    | .ok none => .ok (read.reverse, cs)
    | .ok (some (key, rest)) =>
      match colon rest >>= readValueFuel fuel with
      | .error fault => .error fault
      | .ok (value, rest) =>
        readMembersFuel fuel false ((String.ofList key, value) :: read) rest
end

def readValue (cs : List Char) : Except Fault (Document × List Char) :=
  readValueFuel (2 * (cs.length + 1)) cs

def ofText (cs : List Char) : Except Fault Document := do
  let (value, rest) ← readValue cs
  finish rest
  return value

def member? (name : String) : Document → Option Document
  | .object members => (members.find? fun member => member.1 == name).map Prod.snd
  | _ => none

def text? : Document → Option String
  | .text value => some value
  | _ => none

def number (digits : List Char) : Json.Number :=
  match readNumeral digits with
  | .ok (value, _) => value
  | .error _ => .integer 0

mutual
def value : Document → Json
  | .null => .null
  | .boolean value => .boolean value
  | .numeral digits => .number (number digits)
  | .text value => .text value
  | .list items => .list (values items)
  | .object members => .object (memberValues members)

def values : List Document → List Json
  | [] => []
  | item :: more => value item :: values more

def memberValues : List (String × Document) → List (String × Json)
  | [] => []
  | (key, item) :: more => (key, value item) :: memberValues more
end

theorem values_eq_map (items : List Document) : values items = items.map value := by
  induction items with
  | nil => rfl
  | cons item more ih => rw [values, ih, List.map_cons]

theorem memberValues_eq_map (members : List (String × Document)) :
    memberValues members = members.map fun m => (m.1, m.2.value) := by
  induction members with
  | nil => rfl
  | cons member more ih => rw [memberValues, ih, List.map_cons]

theorem number_of_read {cs rest : List Char} {value : Json.Number}
    (read : readNumeral cs = .ok (value, rest)) :
    ∃ digits, cs = digits ++ rest ∧ number digits = value := by
  obtain ⟨l, split, denoted⟩ := Json.literal_of_numeral read
  have ends : l.Ends [] := l.ends Json.endsNumeral_nil
  have alone := Json.yields_numeral l ends
  rw [List.append_nil, denoted] at alone
  exact ⟨l.text, split, by rw [number, alone]⟩

theorem readNumeral_eq (cs : List Char) :
    readNumeral cs = (readDigits cs).map fun (digits, rest) => (number digits, rest) := by
  cases read : readNumeral cs with
  | error fault => simp [readDigits, read, Except.map]
  | ok result =>
    obtain ⟨digits, split, same⟩ := number_of_read read
    have taken : cs.take (cs.length - result.2.length) = digits := by
      rw [split, List.length_append, Nat.add_sub_cancel, List.take_left]
    simp only [readDigits, read, Except.map, taken, same]

def Agree {α β : Type} (denote : β → α) (given : Except Fault (α × List Char))
    (spelled : Except Fault (β × List Char)) : Prop :=
  given = spelled.map fun (result, rest) => (denote result, rest)

structure Agreement (fuel : Nat) : Prop where
  value : ∀ cs, Agree value (Json.readValueFuel fuel cs) (readValueFuel fuel cs)
  items : ∀ first read cs, Agree values (Json.readItemsFuel fuel first (values read) cs)
    (readItemsFuel fuel first read cs)
  members : ∀ first read cs, Agree memberValues
    (Json.readMembersFuel fuel first (memberValues read) cs) (readMembersFuel fuel first read cs)

theorem agree_value {fuel : Nat} (agreement : Agreement fuel) (cs : List Char) :
    Agree value (Json.readValueFuel (fuel + 1) cs) (readValueFuel (fuel + 1) cs) := by
  unfold Agree Json.readValueFuel readValueFuel
  cases skipSpace cs with
  | nil => rfl
  | cons c rest =>
    have members := agreement.members true [] rest
    have items := agreement.items true [] rest
    simp only [Agree, values, memberValues] at members items
    dsimp only
    split
    · rw [members]
      cases readMembersFuel fuel true [] rest with
      | error fault => rfl
      | ok result => cases closed : closeObject result.2 <;> simp [Except.map, bind, Except.bind,
          closed, pure, Except.pure, value]
    split
    · rw [items]
      cases readItemsFuel fuel true [] rest with
      | error fault => rfl
      | ok result => cases closed : closeList result.2 <;> simp [Except.map, bind, Except.bind,
          closed, pure, Except.pure, value]
    split
    · cases readText rest <;> rfl
    split
    · cases readIdent _ rest <;> rfl
    split
    · cases readIdent _ rest <;> rfl
    split
    · cases readIdent _ rest <;> rfl
    split
    · rw [readNumeral_eq]
      cases readDigits (c :: rest) <;> rfl
    · rfl

theorem agree_items {fuel : Nat} (agreement : Agreement fuel) (first : Bool)
    (read : List Document) (cs : List Char) :
    Agree values (Json.readItemsFuel (fuel + 1) first (values read) cs)
      (readItemsFuel (fuel + 1) first read cs) := by
  unfold Agree Json.readItemsFuel readItemsFuel
  cases nextElement first cs with
  | error fault => rfl
  | ok next =>
    cases next with
    | none => simp [Except.map, values_eq_map]
    | some rest =>
      have item := agreement.value rest
      unfold Agree at item
      dsimp only
      rw [item]
      cases readValueFuel fuel rest with
      | error fault => rfl
      | ok result => exact agreement.items false (result.1 :: read) result.2

theorem agree_members {fuel : Nat} (agreement : Agreement fuel) (first : Bool)
    (read : List (String × Document)) (cs : List Char) :
    Agree memberValues (Json.readMembersFuel (fuel + 1) first (memberValues read) cs)
      (readMembersFuel (fuel + 1) first read cs) := by
  unfold Agree Json.readMembersFuel readMembersFuel
  cases nextKey first cs with
  | error fault => rfl
  | ok next =>
    cases next with
    | none => simp [Except.map, memberValues_eq_map]
    | some found =>
      cases behind : colon found.2 with
      | error fault => simp [behind, bind, Except.bind, Except.map]
      | ok rest =>
        have item := agreement.value rest
        unfold Agree at item
        simp only [behind, bind, Except.bind, item]
        cases readValueFuel fuel rest with
        | error fault => rfl
        | ok result =>
          exact agreement.members false ((String.ofList found.1, result.1) :: read) result.2

theorem agreement (fuel : Nat) : Agreement fuel := by
  induction fuel with
  | zero => exact ⟨fun _ => rfl, fun _ _ _ => rfl, fun _ _ _ => rfl⟩
  | succ fuel ih => exact ⟨agree_value ih, agree_items ih, agree_members ih⟩

/-- A text is refused as a value where it is refused as a document, and otherwise holds what its
    document denotes. -/
theorem ofText_value (cs : List Char) : Json.ofText cs = (ofText cs).map value := by
  have same := (agreement (2 * (cs.length + 1))).value cs
  unfold Agree at same
  rw [Json.ofText, ofText, Json.readValue, readValue, same]
  cases readValueFuel (2 * (cs.length + 1)) cs with
  | error fault => rfl
  | ok result => cases ended : finish result.2 <;> simp [Except.map, bind, Except.bind, ended, pure,
      Except.pure]

end Document
end TickReplay
