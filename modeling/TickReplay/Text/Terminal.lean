import TickReplay.Text.Utf8

/- What a terminal shows of a text. A newline separates two lines, and what is around it stays.
   Controls other than white space leave no trace, nor do escape sequences. White space breaks off a
   sequence that has no data for it to stand in. -/
namespace TickReplay.Text

/-- The pieces between newlines, one more than there are newlines. -/
def lines (cs : List Char) : List (List Char) := cs.splitOn '\n'

/-- The text in front of the first line break; a carriage return right before the newline belongs to
    the break. -/
def firstLine (cs : List Char) : List Char :=
  match lines cs with
  | line :: _ :: _ => if line.getLast? == some '\r' then line.dropLast else line
  | _ => cs

namespace Terminal

/- Where in a sequence the terminal stands. `control` has parameters and a final letter; `title` and
   `data` are strings that run on to their end mark. The three modes in between are the stages of a
   device string before its data. -/
inductive Mode where
  | ground
  | escape
  | designation
  | control
  | title
  | device
  | deviceParameters
  | deviceDesignation
  | data
  deriving DecidableEq, Repr

def isWhite (c : Char) : Bool := c == '\t' || c == '\n' || c == '\x0c' || c == '\r'

def Mode.afterEscape (c : Char) : Mode :=
  if c < '0' then .designation
  else if c = '[' then .control
  else if c = ']' then .title
  else if c = 'P' then .device
  else if c = 'X' ∨ c = '^' ∨ c = '_' then .data
  else .ground

def Mode.onControl (mode : Mode) (c : Char) : Mode × List Char :=
  match mode with
  | .ground | .escape | .designation | .control => if isWhite c then (.ground, [c]) else (mode, [])
  | .title => (if c = '\x07' then .ground else .title, [])
  | _ => (mode, [])

/-- A printable character of the first 128. A private mark of a device string is a parameter only if
    it comes first; elsewhere the rest of the string is data. -/
def Mode.onPlain (mode : Mode) (c : Char) : Mode × List Char :=
  match mode with
  | .ground => (.ground, [c])
  | .escape => (afterEscape c, [])
  | .designation => (if c < '0' then .designation else .ground, [])
  | .control => (if c < '@' then .control else .ground, [])
  | .device =>
    (if c < '0' then .deviceDesignation else if c < '@' then .deviceParameters else .data, [])
  | .deviceParameters =>
    (if c < '0' then .deviceDesignation else if c < '<' then .deviceParameters else .data, [])
  | .deviceDesignation => (if c < '0' then .deviceDesignation else .data, [])
  | _ => (mode, [])

def holdsEndMark (c : Char) : Bool := (Utf8.encode [c]).contains 0x9C

def Mode.onWide (mode : Mode) (c : Char) : Mode × List Char :=
  match mode with
  | .ground => (.ground, [c])
  | .data => (if holdsEndMark c then .ground else .data, [])
  | _ => (mode, [])

def Mode.step (mode : Mode) (c : Char) : Mode × List Char :=
  if c = '\x1b' then (.escape, [])
  else if c = '\x18' ∨ c = '\x1a' then (.ground, [])
  else if c = '\x7f' then (mode, [])
  else if c < ' ' then mode.onControl c
  else if c < '\x7f' then mode.onPlain c
  else mode.onWide c

def visibleFrom (mode : Mode) : List Char → List Char
  | [] => []
  | c :: rest =>
    let (mode, shown) := mode.step c
    shown ++ visibleFrom mode rest

def visible (text : String) : String := String.ofList (visibleFrom .ground text.toList)

end Terminal
end TickReplay.Text
