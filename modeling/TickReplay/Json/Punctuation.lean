import TickReplay.Json.Text

/- The steps between values: separators, keys, closing brackets and the end of the text. Each takes
   leading space and says at which character it gives up. -/
namespace TickReplay.Json

/-- The text of the next element, none in front of the closing bracket. -/
def nextElement (first : Bool) (cs : List Char) : Except Fault (Option (List Char)) :=
  match skipSpace cs with
  | [] => .error (.here .endOfList [])
  | c :: rest =>
    if c = ']' then .ok none
    else if first then .ok (some (c :: rest))
    else if c ≠ ',' then .error (.next .expectedListEnd (c :: rest))
    else match skipSpace rest with
      | [] => .error (.here .endOfValue [])
      | d :: more =>
        if d = ']' then .error (.next .trailingComma (d :: more)) else .ok (some (d :: more))

def readKey (c : Char) (rest : List Char) : Except Fault (Option (List Char × List Char)) :=
  if c = '"' then (readText rest).map some else .error (.next .keyNotString (c :: rest))

def nextKey (first : Bool) (cs : List Char) : Except Fault (Option (List Char × List Char)) :=
  match skipSpace cs with
  | [] => .error (.here .endOfObject [])
  | c :: rest =>
    if c = '\x7d' then .ok none
    else if first then readKey c rest
    else if c ≠ ',' then .error (.next .expectedObjectEnd (c :: rest))
    else match skipSpace rest with
      | [] => .error (.here .endOfValue [])
      | d :: more =>
        if d = '\x7d' then .error (.next .trailingComma (d :: more)) else readKey d more

def colon (cs : List Char) : Except Fault (List Char) :=
  match skipSpace cs with
  | [] => .error (.here .endOfObject [])
  | c :: rest => if c = ':' then .ok rest else .error (.next .expectedColon (c :: rest))

def closeList (cs : List Char) : Except Fault (List Char) :=
  match skipSpace cs with
  | [] => .error (.here .endOfList [])
  | c :: rest =>
    if c = ']' then .ok rest
    else if c = ',' then
      match skipSpace rest with
      | ']' :: more => .error (.next .trailingComma (']' :: more))
      | other => .error (.next .trailingText other)
    else .error (.next .trailingText (c :: rest))

def closeObject (cs : List Char) : Except Fault (List Char) :=
  match skipSpace cs with
  | [] => .error (.here .endOfObject [])
  | c :: rest =>
    if c = '\x7d' then .ok rest
    else if c = ',' then .error (.next .trailingComma (c :: rest))
    else .error (.next .trailingText (c :: rest))

def finish (cs : List Char) : Except Fault Unit :=
  match skipSpace cs with
  | [] => .ok ()
  | c :: rest => .error (.next .trailingText (c :: rest))

def readIdent : List Char → List Char → Except Fault (List Char)
  | [], rest => .ok rest
  | _ :: _, [] => .error (.here .endOfValue [])
  | expected :: more, c :: rest =>
    if c = expected then readIdent more rest else .error (.next .expectedIdent (c :: rest))

end TickReplay.Json
