import TickReplay.Json.Numeral
import TickReplay.Json.Punctuation
import TickReplay.Json.Value

/- Reading values of any shape. Members keep their order and repetitions. Every value takes at least
   one character and opens at most one level, so twice the length of the text is fuel enough. -/
namespace TickReplay.Json

mutual
def readValueFuel : Nat → List Char → Except Fault (Json × List Char)
  | 0, _ => .error (.here .endOfValue [])
  | fuel + 1, cs =>
    match skipSpace cs with
    | [] => .error (.here .endOfValue [])
    | c :: rest =>
      if c = '\x7b' then do
        let (members, rest) ← readMembersFuel fuel true [] rest
        return (.object members, ← closeObject rest)
      else if c = '[' then do
        let (items, rest) ← readItemsFuel fuel true [] rest
        return (.list items, ← closeList rest)
      else if c = '"' then
        (readText rest).map fun (chars, rest) => (.text (String.ofList chars), rest)
      else if c = 'n' then (readIdent "ull".toList rest).map fun rest => (.null, rest)
      else if c = 't' then (readIdent "rue".toList rest).map fun rest => (.boolean true, rest)
      else if c = 'f' then (readIdent "alse".toList rest).map fun rest => (.boolean false, rest)
      else if startsNumeral c then
        (readNumeral (c :: rest)).map fun (value, rest) => (.number value, rest)
      else .error (.next .expectedValue (c :: rest))

def readItemsFuel : Nat → Bool → List Json → List Char → Except Fault (List Json × List Char)
  | 0, _, _, _ => .error (.here .endOfList [])
  | fuel + 1, first, read, cs =>
    match nextElement first cs with
    | .error fault => .error fault
    | .ok none => .ok (read.reverse, cs)
    | .ok (some rest) =>
      match readValueFuel fuel rest with
      | .error fault => .error fault
      | .ok (item, rest) => readItemsFuel fuel false (item :: read) rest

def readMembersFuel : Nat → Bool → List (String × Json) → List Char →
    Except Fault (List (String × Json) × List Char)
  | 0, _, _, _ => .error (.here .endOfObject [])
  | fuel + 1, first, read, cs =>
    match nextKey first cs with
    | .error fault => .error fault
    | .ok none => .ok (read.reverse, cs)
    | .ok (some (key, rest)) =>
      match colon rest >>= readValueFuel fuel with
      | .error fault => .error fault
      | .ok (value, rest) =>
        readMembersFuel fuel false ((String.ofList key, value) :: read) rest
end

def readValue (cs : List Char) : Except Fault (Json × List Char) :=
  readValueFuel (2 * (cs.length + 1)) cs

def ofText (cs : List Char) : Except Fault Json := do
  let (value, rest) ← readValue cs
  finish rest
  return value

end TickReplay.Json
