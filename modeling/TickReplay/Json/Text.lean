import TickReplay.Json.Fault

/- Strings. Writing escapes quotes, backslashes and controls only; reading takes every escape,
   joins paired surrogates and refuses lone ones. -/
namespace TickReplay.Json

def hexDigit (n : Nat) : Char := Nat.digitChar n

def escapeChar (c : Char) : List Char :=
  if c = '"' then ['\\', '"']
  else if c = '\\' then ['\\', '\\']
  else if c = '\x08' then ['\\', 'b']
  else if c = '\t' then ['\\', 't']
  else if c = '\n' then ['\\', 'n']
  else if c = '\x0c' then ['\\', 'f']
  else if c = '\r' then ['\\', 'r']
  else if c.toNat < 0x20 then
    ['\\', 'u', '0', '0', hexDigit (c.toNat / 16), hexDigit (c.toNat % 16)]
  else [c]

def escape (cs : List Char) : List Char := cs.flatMap escapeChar

def stringText (cs : List Char) : List Char := '"' :: escape cs ++ ['"']

def hexValue (c : Char) : Option Nat :=
  if c.isDigit then some (c.toNat - '0'.toNat)
  else if 'a' ≤ c ∧ c ≤ 'f' then some (c.toNat - 'a'.toNat + 10)
  else if 'A' ≤ c ∧ c ≤ 'F' then some (c.toNat - 'A'.toNat + 10)
  else none

def hexQuad (a b c d : Char) : Option Nat := do
  return ((← hexValue a) * 16 + (← hexValue b)) * 256 + ((← hexValue c) * 16 + (← hexValue d))

/-- The four digits of a code unit. Four bytes are taken together, whatever they hold. -/
def readUnit (cs : List Char) : Except Fault Nat :=
  match cs with
  | a :: b :: c :: d :: _ =>
    match hexQuad a b c d with
    | some unit => .ok unit
    | none => .error ⟨.invalidEscape, Utf8.size cs - 4⟩
  | short =>
    if Utf8.size short < 4 then .error (.here .endOfString [])
    else .error ⟨.invalidEscape, Utf8.size short - 4⟩

def isLeadUnit (n : Nat) : Bool := 0xD800 ≤ n && n ≤ 0xDBFF
def isTrailUnit (n : Nat) : Bool := 0xDC00 ≤ n && n ≤ 0xDFFF

def expectMark (mark : Char) : List Char → Except Fault (List Char)
  | [] => .error (.here .endOfString [])
  | c :: rest => if c = mark then .ok rest else .error (.next .brokenPair (c :: rest))

/-- The character of a unicode escape and the length of the escape after its first mark. -/
def readUnicode (cs : List Char) : Except Fault (Char × Nat) := do
  let unit ← readUnit cs
  let rest := cs.drop 4
  if isTrailUnit unit then throw (.here .loneSurrogate rest)
  else if !isLeadUnit unit then return (Char.ofNat unit, 4)
  else
    let afterSlash ← expectMark '\\' rest
    let afterMark ← expectMark 'u' afterSlash
    let second ← readUnit afterMark
    if isTrailUnit second then
      return (Char.ofNat ((unit - 0xD800) * 1024 + (second - 0xDC00) + 0x10000), 10)
    else throw (.here .loneSurrogate (afterMark.drop 4))

def readEscape : List Char → Except Fault (Char × Nat)
  | [] => .error (.here .endOfString [])
  | c :: rest =>
    if c = '"' ∨ c = '\\' ∨ c = '/' then .ok (c, 1)
    else if c = 'b' then .ok ('\x08', 1)
    else if c = 'f' then .ok ('\x0c', 1)
    else if c = 'n' then .ok ('\n', 1)
    else if c = 'r' then .ok ('\r', 1)
    else if c = 't' then .ok ('\t', 1)
    else if c = 'u' then (readUnicode rest).map fun (c, taken) => (c, taken + 1)
    else .error (.next .invalidEscape (c :: rest))

/- `skip` counts the characters of the last escape that are still to be passed over. -/
def readTextFrom : Nat → List Char → List Char → Except Fault (List Char × List Char)
  | _, _, [] => .error (.here .endOfString [])
  | skip + 1, read, _ :: rest => readTextFrom skip read rest
  | 0, read, c :: rest =>
    if c = '"' then .ok (read.reverse, rest)
    else if c = '\\' then
      match readEscape rest with
      | .ok (c, taken) => readTextFrom taken (c :: read) rest
      | .error fault => .error fault
    else if c.toNat < 0x20 then .error (.next .controlCharacter (c :: rest))
    else readTextFrom 0 (c :: read) rest

def readText (cs : List Char) : Except Fault (List Char × List Char) := readTextFrom 0 [] cs

end TickReplay.Json
