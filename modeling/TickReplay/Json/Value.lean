import TickReplay.Json.Text

/- Values of any shape, their compact text and their canonical form, in which the members of every
   object are sorted by key and a repeated key keeps its last value. -/
namespace TickReplay

inductive Json where
  | null
  | boolean (value : Bool)
  | number (value : Json.Number)
  | text (value : String)
  | list (items : List Json)
  | object (members : List (String × Json))
  deriving Repr

namespace Json

mutual
def compactText : Json → List Char
  | .null => "null".toList
  | .boolean true => "true".toList
  | .boolean false => "false".toList
  | .number value => value.text
  | .text value => stringText value.toList
  | .list items => '[' :: itemsText items ++ [']']
  | .object members => '\x7b' :: membersText members ++ ['\x7d']

def itemsText : List Json → List Char
  | [] => []
  | [item] => compactText item
  | item :: more => compactText item ++ ',' :: itemsText more

def membersText : List (String × Json) → List Char
  | [] => []
  | [(key, value)] => stringText key.toList ++ ':' :: compactText value
  | (key, value) :: more =>
    stringText key.toList ++ ':' :: compactText value ++ ',' :: membersText more
end

def compact (value : Json) : String := String.ofList value.compactText

/-- Keys are compared by their characters, which is the order of their UTF-8 bytes. -/
def insertMember (key : String) (value : Json) : List (String × Json) → List (String × Json)
  | [] => [(key, value)]
  | (k, v) :: more =>
    if key < k then (key, value) :: (k, v) :: more
    else if key = k then (key, value) :: more
    else (k, v) :: insertMember key value more

def sortMembers (members : List (String × Json)) : List (String × Json) :=
  members.foldl (fun sorted (key, value) => insertMember key value sorted) []

mutual
def canonical : Json → Json
  | .null => .null
  | .boolean value => .boolean value
  | .number value => .number value
  | .text value => .text value
  | .list items => .list (canonicalItems items)
  | .object members => .object (sortMembers (canonicalMembers members))

def canonicalItems : List Json → List Json
  | [] => []
  | item :: more => canonical item :: canonicalItems more

def canonicalMembers : List (String × Json) → List (String × Json)
  | [] => []
  | (key, value) :: more => (key, canonical value) :: canonicalMembers more
end

def ofNat (n : Nat) : Json := .number (.integer n)

end Json
end TickReplay
